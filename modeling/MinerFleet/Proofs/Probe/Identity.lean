/-
Which name a miner goes by after it has been asked.

* `ownName` — the name that an answer gives under `address`;
* `NamesItself` — a miner at an address may answer with a name of its own;
* `Discovers`, `Dials`, `Asks` — how far a discovery is, and how far the question to a miner is.

A record is dialed where its miner was asked, whatever the answers hold. Its name is not kept in
the same way: an answer with a name of its own goes before the name that the miner was added by
(`address_of_probeResult`). So each result of a job goes by the name that was known, unless the
miner names itself.
-/
import MinerFleet.Proofs.Address.Literal
import MinerFleet.Proofs.Device.Wire
import MinerFleet.Proofs.Probe.Outcome

namespace MinerFleet

/-! ### Names in answers -/

theorem Device.orText_assoc (a b c : String) : orText (orText a b) c = orText a (orText b c) := by
  by_cases ha : a = ""
  · subst ha
    rfl
  · have hab : orText a b = a := if_neg ha
    rw [hab, orText, orText, if_neg ha, if_neg ha]

theorem Device.orText_of_ne {s fallback : String} (h : s ≠ "") : orText s fallback = s :=
  if_neg h

@[simp] theorem Device.classified_address (d : Device) : d.classified.address = d.address := by
  rw [classified]
  split <;> rfl

/-- The name that an answer gives for its miner, empty where it gives none. -/
def ownName (payload : Json) : String :=
  ((payload.get? "address").bind Json.text?).getD ""

theorem lookup_ofFields (key : String) (fields : List (String × Json)) :
    lookup key (Document.ofFields fields) = (lookup key fields).map Document.ofJson := by
  induction fields with
  | nil => rfl
  | cons f fields ih =>
    obtain ⟨k, v⟩ := f
    rw [Document.ofFields, lookup, lookup]
    by_cases hk : k = key
    · rw [if_pos hk, if_pos hk, Option.map_some]
    · rw [if_neg hk, if_neg hk, ih]

theorem text_ofJson_eq_ok {v : Json} {s : String} (h : Decoder.text (.ofJson v) = .ok s) :
    v = .string s := by
  cases v with
  | string s' => rw [Except.ok.inj h]
  | null => cases h
  | bool b => cases h
  | number n => cases h
  | array items => cases h
  | object fields => cases h

/-- The name in the record of an answer is the one that the answer gives. -/
theorem address_of_readPayload {payload : Json} {d : Device} (h : readPayload payload = .ok d) :
    d.address = ownName payload := by
  cases payload with
  | object fields =>
    rw [readPayload, Document.ofJson] at h
    cases hd : Device.decode (.object (Document.ofFields fields) none) with
    | error e =>
      rw [hd] at h
      cases h
    | ok d' =>
      rw [hd] at h
      obtain rfl : d' = d := Except.ok.inj h
      -- The key has no other name, so that what stands under it is what is read for it.
      obtain ⟨known, hknown, hr⟩ := Device.decode_eq_ok.mp hd
      obtain ⟨rfl, -⟩ := judgeFields_eq_ok.mp hknown
      have hlook : lookup "address" (knownFields Device.rules (Document.ofFields fields)) =
          (lookup "address" fields).map Document.ofJson := by
        have hfind : FieldRule.find? Device.rules (Device.plain "address" Decoder.text).name =
            some (Device.plain "address" Decoder.text) := rfl
        rw [← lookup_ofFields]
        exact lookup_knownFields hfind (by decide) _
      have ha := hr.address
      rw [Device.readDefault, hlook] at ha
      rw [ownName, Json.get?]
      cases hv : lookup "address" fields with
      | none =>
        rw [hv] at ha
        exact (Except.ok.inj ha).symm
      | some v =>
        rw [hv] at ha
        rw [text_ofJson_eq_ok ha]
        rfl
  | null => cases h
  | bool b => cases h
  | number n => cases h
  | string s => cases h
  | array items => cases h

/-- The record of an answer about chips is that of the answer, or an empty one. -/
theorem readAsic_cases (answer : Except ProbeFailure Json) :
    readAsic answer = {} ∨
      ∃ payload d, answer = .ok payload ∧ readPayload payload = .ok d ∧ readAsic answer = d := by
  cases answer with
  | error failure => exact .inl rfl
  | ok payload =>
    cases payload with
    | null => exact .inl rfl
    | bool b => exact .inl rfl
    | number n => exact .inl rfl
    | string s => exact .inl rfl
    | array items => exact .inl rfl
    | object fields =>
      have he : readAsic (.ok (.object fields)) =
          (readPayload (.object fields)).toOption.getD {} := rfl
      rw [he]
      cases hr : readPayload (.object fields) with
      | error failure => exact .inl rfl
      | ok d => exact .inr ⟨_, d, rfl, hr, rfl⟩

theorem address_of_readAsic (answer : Except ProbeFailure Json) :
    (readAsic answer).address = "" ∨
      ∃ payload, answer = .ok payload ∧ (readAsic answer).address = ownName payload := by
  rcases readAsic_cases answer with he | ⟨payload, d, rfl, hd, he⟩
  · rw [he]
    exact .inl rfl
  · rw [he]
    exact .inr ⟨payload, rfl, address_of_readPayload hd⟩

/-- The name of a record: that of the answer about chips, or else that of the other answer, or
else the one that was known, or else the address that was asked. -/
theorem address_of_assemble {address : String} {prior : Option Device} {info asic d : Device}
    (h : assemble address prior info asic = .ok d) :
    d.address = Device.orText asic.address
      (Device.orText info.address (Device.orText (prior.getD {}).address address)) := by
  rw [assemble] at h
  split at h
  · cases h
  · obtain rfl := Except.ok.inj h
    show (Device.classified _).address = _
    rw [Device.classified_address]
    show Device.orText (Device.orText (Device.orText asic.address info.address) _) address = _
    rw [Device.orText_assoc, Device.orText_assoc]

theorem address_of_probeResult {target : Target} {info asic : Except ProbeFailure Json}
    {d : Device} (h : probeResult target info asic = .ok d) :
    ∃ payload, info = .ok payload ∧
      d.address = Device.orText (readAsic asic).address (Device.orText (ownName payload)
        (Device.orText (target.prior.getD {}).address target.connectionAddress)) := by
  rw [probeResult, bind_eq_ok] at h
  obtain ⟨payload, rfl, h⟩ := h
  rw [bind_eq_ok] at h
  obtain ⟨record, hr, h⟩ := h
  refine ⟨payload, rfl, ?_⟩
  rw [address_of_assemble h, address_of_readPayload hr]

/-! ### Names that miners give themselves -/

variable {W : Network → Prop}

/-- A miner at an address may answer with a name of its own. -/
def NamesItself (W : Network → Prop) (address name : String) : Prop :=
  name ≠ "" ∧ ∃ net, W net ∧ ∃ delay payload, ownName payload = name ∧
    (net.info address = .after delay (.ok payload) ∨ net.asic address = .after delay (.ok payload))

/-- A record goes by a name, unless its miner names itself. -/
def Device.GoesBy (W : Network → Prop) (d : Device) (name : String) : Prop :=
  d.address = name ∨ NamesItself W d.connectionAddress d.address

theorem Reply.eq_after_of_within {α : Type} {r : Reply α} {limit time : Nat} {a : α}
    (h : r.within limit = (time, .ok a)) : ∃ delay, r = .after delay (.ok a) := by
  cases r with
  | never => cases (Prod.mk.inj h).2
  | after delay result =>
    rw [within] at h
    split at h
    · exact ⟨delay, by rw [(Prod.mk.inj h).2]⟩
    · cases (Prod.mk.inj h).2

theorem Reply.eq_after_of_both {α β : Type} {r : Reply α} {r' : Reply β} {delay : Nat}
    {x : Except ProbeFailure α} {y : Except ProbeFailure β}
    (h : r.both r' = .after delay (.ok (x, y))) :
    (∃ delay, r = .after delay x) ∧ ∃ delay, r' = .after delay y := by
  cases r with
  | never => cases h
  | after a result =>
    cases r' with
    | never => cases h
    | after b result' =>
      obtain ⟨-, he⟩ := Reply.after.inj h
      obtain ⟨rfl, rfl⟩ := Prod.mk.inj (Except.ok.inj he)
      exact ⟨⟨a, rfl⟩, b, rfl⟩

/-- A record comes from the answers of a miner that are there in time. -/
theorem answers_of_probe {net : Network} {fetchAsic : Bool} {target : Target} {d : Device}
    (h : (net.probe fetchAsic target).2 = .ok d) :
    ∃ info asic, (∃ delay, net.info target.connectionAddress = .after delay info) ∧
      ((∃ delay, net.asic target.connectionAddress = .after delay asic) ∨ asic = .ok .null) ∧
      probeResult target info asic = .ok d := by
  rw [Network.probe] at h
  split at h
  · rename_i time info asic he
    obtain ⟨delay, he⟩ := Reply.eq_after_of_within he
    refine ⟨info, asic, ?_, ?_, h⟩
    · rw [Network.exchange] at he
      split at he
      · exact (Reply.eq_after_of_both he).1
      · exact (Reply.eq_after_of_both he).1
    · rw [Network.exchange] at he
      split at he
      · exact .inl (Reply.eq_after_of_both he).2
      · obtain ⟨-, _, hnull⟩ := Reply.eq_after_of_both he
        exact .inr (Reply.after.inj hnull).2.symm
  · cases h

/-- What comes of a probe is read from what comes of both requests. -/
theorem Network.probe_congr {net net' : Network} {fetchAsic : Bool} {target : Target}
    (h : ((net.exchange target.connectionAddress fetchAsic).within probeLimit).2 =
      ((net'.exchange target.connectionAddress fetchAsic).within probeLimit).2) :
    (net.probe fetchAsic target).2 = (net'.probe fetchAsic target).2 := by
  rw [probe, probe]
  generalize (net.exchange _ _).within probeLimit = x at h ⊢
  generalize (net'.exchange _ _).within probeLimit = y at h ⊢
  obtain ⟨time, result⟩ := x
  obtain ⟨time', result'⟩ := y
  obtain rfl : result = result' := h
  cases result <;> rfl

/-- A miner that was asked goes by the name that was known, or else by the address where it was
asked, unless it names itself. -/
theorem Answered.goesBy {fetchAsic : Bool} {target : Target} {d : Device}
    (h : Answered W fetchAsic target (.ok d)) :
    d.GoesBy W (Device.orText (target.prior.getD {}).address target.connectionAddress) := by
  have hconn := h.connectionAddress
  obtain ⟨net, hn, hp⟩ := h
  obtain ⟨info, asic, ⟨delay, hinfo⟩, hasic, hp⟩ := answers_of_probe hp
  obtain ⟨payload, rfl, ha⟩ := address_of_probeResult hp
  rw [Device.GoesBy, hconn]
  by_cases hchips : (readAsic asic).address = ""
  · rw [hchips] at ha
    by_cases hown : ownName payload = ""
    · rw [hown] at ha
      exact .inl ha
    · -- The answer that has to be there names its miner.
      have he : d.address = ownName payload := ha.trans (Device.orText_of_ne hown)
      rw [he]
      exact .inr ⟨hown, net, hn, delay, payload, rfl, .inl hinfo⟩
  · -- The answer about chips names its miner, which wins.
    rw [Device.orText_of_ne hchips] at ha
    rcases address_of_readAsic asic with he | ⟨payload', rfl, he⟩
    · exact absurd he hchips
    · rw [he] at ha hchips
      rw [ha]
      rcases hasic with ⟨delay', hasic⟩ | hnull
      · exact .inr ⟨hchips, net, hn, delay', payload', rfl, .inr hasic⟩
      · rw [Except.ok.inj hnull] at hchips
        exact absurd rfl hchips

/-! ### Discoveries -/

/-- A host of the network that a discovery scans. -/
def Scanned (seed netmask : String) (target : Target) : Prop :=
  target.prior = none ∧ ∃ answer addresses,
    scanTargets seed netmask answer = .ok addresses ∧ target.connectionAddress ∈ addresses

/-- A discovery: only hosts of the network are asked, and each outcome is one of theirs. -/
inductive Discovers (W : Network → Prop) (seed netmask : String) : Stage ⊕ JobResult → Prop
  | asking (n ends : Nat) (answer : Except ProbeFailure Json) :
      Discovers W seed netmask (.inl (.asking seed netmask n ends answer))
  | discovering {pool : ProbePool} (ht : ∀ t ∈ pool.targets, Scanned seed netmask t)
      (hq : pool.Holds (Answered W true)) : Discovers W seed netmask (.inl (.discovering pool))
  | discovered {outcomes : List (Target × Except ProbeFailure Device)}
      (h : ∀ o ∈ outcomes, Scanned seed netmask o.1 ∧ Answered W true o.1 o.2) :
      Discovers W seed netmask (.inr (.discovered (.ok (discoveryReport outcomes))))
  | failed (fault : Fault) : Discovers W seed netmask (.inr (.discovered (.error fault)))

theorem scanned_of_mem {seed netmask : String} {answer : Except ProbeFailure Json}
    {addresses : List String} (hs : scanTargets seed netmask answer = .ok addresses)
    {target : Target} (h : target ∈ targetsAt addresses) : Scanned seed netmask target := by
  obtain ⟨address, ha, rfl⟩ := List.mem_map.mp h
  exact ⟨rfl, answer, addresses, hs, ha⟩

/-- Whatever the seed has answered, only hosts of the network are asked. -/
theorem Scans.discovers {seed netmask : String} {answer : Except ProbeFailure Json}
    {x : Stage ⊕ JobResult} (h : Scans W seed netmask answer x) :
    Discovers W seed netmask x := by
  cases h with
  | asking n ends => exact .asking n ends answer
  | discovering hs ht hq =>
    exact .discovering (fun t hm => scanned_of_mem hs (ht.mem_iff.mp hm)) hq
  | discovered hs ht ho =>
    refine .discovered fun o hm => ⟨scanned_of_mem hs ?_, ho o hm⟩
    exact ht.mem_iff.mp (List.mem_map_of_mem hm)
  | failed fault => exact .failed fault

/-- What a discovery finds was asked at a host of the network. -/
theorem outcomes_of_discovery {seed netmask : String} {n : Nat} {r : JobResult}
    (h : (Job.discovery seed netmask n).Yields W r) : Discovers W seed netmask (.inr r) := by
  obtain ⟨net, -, hscans⟩ := scans_of_discovery h
  exact hscans.discovers

theorem mem_discoveryReport {outcomes : List (Target × Except ProbeFailure Device)} {d : Device}
    (h : d ∈ (discoveryReport outcomes).devices) : ∃ target, (target, .ok d) ∈ outcomes := by
  obtain ⟨⟨target, outcome⟩, hm, he⟩ := List.mem_filterMap.mp h
  cases outcome with
  | error failure => cases he
  | ok d' =>
    rw [← Option.some.inj he]
    exact ⟨target, hm⟩

section

variable {seed netmask : String} {n : Nat} {report : Report} {d : Device}

/-- A miner that a discovery finds is dialed at a host of the network. It has been asked there in
full, and nothing was known of it. -/
theorem answered_of_discovery
    (h : (Job.discovery seed netmask n).Yields W (.discovered (.ok report)))
    (hd : d ∈ report.devices) :
    Scanned seed netmask ⟨d.connectionAddress, none⟩ ∧
      Answered W true ⟨d.connectionAddress, none⟩ (.ok d) := by
  cases outcomes_of_discovery h with
  | discovered ho =>
    obtain ⟨⟨address, prior⟩, hm⟩ := mem_discoveryReport hd
    obtain ⟨hs, ha⟩ := ho _ hm
    obtain rfl : prior = none := hs.1
    have hconn : d.connectionAddress = address := ha.connectionAddress
    rw [hconn]
    exact ⟨hs, ha⟩

/-- A miner that a discovery finds is dialed at a host of the network, and goes by its address. -/
theorem mem_of_discovery
    (h : (Job.discovery seed netmask n).Yields W (.discovered (.ok report)))
    (hd : d ∈ report.devices) :
    Scanned seed netmask ⟨d.connectionAddress, none⟩ ∧ d.GoesBy W d.connectionAddress := by
  obtain ⟨hs, ha⟩ := answered_of_discovery h hd
  exact ⟨hs, ha.goesBy⟩

end

/-! ### Miners that are to be added -/

/-- An address that a name can stand for: itself if it is one, and else what a network finds. -/
def Dials (W : Network → Prop) (name address : String) : Prop :=
  if isIpLiteral name then address = name
  else ∃ net, W net ∧ ∃ delay, net.resolve name = .after delay (.ok address)

/-- What can come of the question to a miner that is to be added by a name. -/
def Asked (W : Network → Prop) (name : String) (outcome : Except ProbeFailure Device) : Prop :=
  ∃ address, Dials W name address ∧
    Answered W true ⟨address, some (Device.at_ name address)⟩ outcome

/-- The question to a miner that is to be added by a name. -/
inductive Asks (W : Network → Prop) (name : String) : Stage ⊕ JobResult → Prop
  | resolving {ticket : Nat} {ends : Option Nat} {result : Except ProbeFailure String}
      (h : ∀ address, result = .ok address → Dials W name address) :
      Asks W name (.inl (.resolving name ticket ends result))
  | probing {address : String} {ticket ends : Nat} {outcome : Except ProbeFailure Device}
      (h : Asked W name outcome) : Asks W name (.inl (.probing address ticket ends outcome))
  | probed {d : Device} {ticket : Nat} (h : Asked W name (.ok d)) :
      Asks W name (.inr (.probed (.ok d) ticket))
  | refused (fault : Fault) (ticket : Nat) : Asks W name (.inr (.probed (.error fault) ticket))

section

variable {name : String} {net : Network} {now ticket : Nat}

theorem asks_stepProbe (address : String) (ends : Nat) {outcome : Except ProbeFailure Device}
    (h : Asked W name outcome) :
    Asks W name (Stage.stepProbe now address ticket ends outcome).next := by
  rw [Stage.stepProbe]
  by_cases he : ends ≤ now
  · rw [if_pos he]
    cases outcome with
    | error failure => exact .refused _ _
    | ok d => exact .probed h
  · rw [if_neg he]
    exact .probing h

theorem asks_beginProbe (hn : W net) {address : String} (h : Dials W name address) :
    Asks W name (Stage.beginProbe net now name address ticket).next := by
  rw [Stage.beginProbe]
  exact asks_stepProbe name _ ⟨address, h, net, hn, rfl⟩

theorem asks_stepResolve (hn : W net) {ends : Option Nat} {result : Except ProbeFailure String}
    (h : ∀ address, result = .ok address → Dials W name address) :
    Asks W name (Stage.stepResolve net now name ticket ends result).next := by
  unfold Stage.stepResolve
  by_cases he : ends.any (· ≤ now)
  · rw [if_pos he]
    cases result with
    | error failure => exact .refused _ _
    | ok address => exact asks_beginProbe hn (h address rfl)
  · rw [if_neg he]
    exact .resolving h

theorem asks_step (hn : W net) {stage : Stage} (h : Asks W name (.inl stage)) :
    Asks W name (stage.step net now).next := by
  cases h with
  | resolving h => exact asks_stepResolve hn h
  | probing h => exact asks_stepProbe _ _ h

theorem asks_beginPeer (hn : W net) {input : String} (hname : Text.trim input = name)
    (hp : isPeer name = true) : Asks W name (Job.beginPeer net now input ticket).next := by
  rw [Job.beginPeer, hname]
  simp only [hp, Bool.not_true, Bool.false_eq_true, if_false]
  by_cases hip : isIpLiteral name
  · rw [if_pos hip]
    refine asks_beginProbe hn ?_
    rw [Dials, if_pos hip]
  · rw [if_neg hip]
    refine asks_stepResolve hn fun address he => ?_
    rw [Dials, if_neg hip]
    cases hr : net.resolve name with
    | never =>
      rw [hr] at he
      cases he
    | after delay result =>
      rw [hr] at he
      obtain rfl : result = .ok address := he
      exact ⟨net, hn, delay, hr⟩

end

/-- A miner that is to be added is asked by its name without blanks, which has to be one. -/
theorem asked_of_peer {input name : String} {ticket ticket' : Nat} {d : Device}
    (h : (Job.peer input ticket).Yields W (.probed (.ok d) ticket'))
    (hname : Text.trim input = name) : isPeer name = true ∧ Asked W name (.ok d) := by
  obtain ⟨net, now, hn, hl⟩ := h
  rw [Job.begins] at hl
  cases hp : isPeer name with
  | true =>
    -- Induction on the stages of the question; `Asks` is what each of them keeps.
    have hasks := hl.keeps (P := Asks W name) (fun _ _ _ hn => asks_step hn)
      (asks_beginPeer hn hname hp)
    cases hasks with
    | probed h => exact ⟨rfl, h⟩
  | false =>
    rw [Job.beginPeer, hname] at hl
    simp only [hp, Bool.not_false, if_true] at hl
    cases hl

/-- A miner that is added goes by the name that it is added by, and is dialed at an address that
this name stands for. -/
theorem identity_of_peer {input name : String} {ticket ticket' : Nat} {d : Device}
    (h : (Job.peer input ticket).Yields W (.probed (.ok d) ticket'))
    (hname : Text.trim input = name) :
    isPeer name = true ∧ d.GoesBy W name ∧ Dials W name d.connectionAddress := by
  obtain ⟨hp, address, hdials, ha⟩ := asked_of_peer h hname
  have hconn : d.connectionAddress = address := ha.connectionAddress
  have hgoes : d.GoesBy W (Device.orText name address) := ha.goesBy
  rw [Device.orText_of_ne (isPeer_ne_empty hp)] at hgoes
  rw [hconn]
  exact ⟨hp, hgoes, hdials⟩

/-! ### Refreshes -/

/-- A record that a refresh gives is of a miner that it knows, and goes by the name under which it
knows it; one without a name goes by its address where it answers. -/
theorem mem_of_refresh {known : List Device} {n : Nat} {fetchAsic : Bool} {report : Report}
    {d : Device} (h : (Job.refresh known n fetchAsic).Yields W (.refreshed report))
    (hd : d ∈ report.devices) :
    ∃ k ∈ known, k.connectionAddress = d.connectionAddress ∧
      (k.address ≠ "" → d.GoesBy W k.address) := by
  obtain ⟨outcomes, rfl, ht, ho⟩ := outcomes_of_refresh h
  obtain ⟨⟨target, outcome⟩, hm, he⟩ := List.mem_filterMap.mp hd
  have htarget : target ∈ known.map Target.ofDevice := ht.mem_iff.mp (List.mem_map_of_mem hm)
  obtain ⟨k, hk, rfl⟩ := List.mem_map.mp htarget
  cases outcome with
  | ok d' =>
    obtain rfl : d' = d := Option.some.inj he
    have ha : Answered W fetchAsic (Target.ofDevice k) (.ok d') := ho _ hm
    refine ⟨k, hk, ha.connectionAddress.symm, fun hne => ?_⟩
    have hgoes := ha.goesBy
    have hname : ((Target.ofDevice k).prior.getD {}).address = k.address := rfl
    rwa [hname, Device.orText_of_ne hne] at hgoes
  | error failure =>
    -- One that does not answer keeps its record, but for the count of failures.
    obtain rfl : k.failed = d := Option.some.inj he
    exact ⟨k, hk, rfl, fun _ => .inl rfl⟩

end MinerFleet
