/-
To how many miners of a fleet a name belongs.

* `Nameless`, `FindsAddresses` — no miner gives itself a name, and hosts are found at IPv4
  addresses;
* `Device.Proper` — a record is dialed at an address, and has no other address for its name;
* `KnownOnce` — no text is known to two miners;
* `OrderlyRun` — the runs in which no host is to be added twice at a time, and no miner is added at
  an address that a refresh under way knows under another name.

Two miners never share an address (`known_twice_of_proper`): what they can share is the name of a
host. In an orderly run they do not share that either (`OrderlyRun.unambiguous`), so that it does
not matter in which order the fleet is searched for a name. A host that is to be added twice at a
time and is found at two addresses is registered twice (`known_twice_after_two_requests`).
-/
import Mathlib.Data.List.Nodup
import Mathlib.Data.List.Pairwise
import Mathlib.Data.List.Perm.Subperm
import MinerFleet.Fleet.Filter
import MinerFleet.Proofs.Engine.Fleet
import MinerFleet.Proofs.System.Records

namespace MinerFleet

/-! ### Names -/

/-- No miner answers with a name of its own. -/
def Nameless (W : Network → Prop) : Prop :=
  ∀ address name, ¬ NamesItself W address name

/-- Hosts are found at IPv4 addresses. -/
def FindsAddresses (W : Network → Prop) : Prop :=
  ∀ net, W net → ∀ host delay address, net.resolve host = .after delay (.ok address) →
    isIpLiteral address = true

theorem Device.GoesBy.eq {W : Network → Prop} (hW : Nameless W) {d : Device} {name : String}
    (h : d.GoesBy W name) : d.address = name :=
  h.resolve_right (hW _ _)

/-- A record of a miner that is dialed at an address, and has a name: this address or no address. -/
structure Device.Proper (d : Device) : Prop where
  dialed : isIpLiteral d.connectionAddress = true
  named : d.address ≠ ""
  same : isIpLiteral d.address = true → d.address = d.connectionAddress

theorem Device.Proper.of_eq {d d' : Device} (h : d.Proper) (ha : d'.address = d.address)
    (hc : d'.connectionAddress = d.connectionAddress) : d'.Proper := by
  constructor
  · rw [hc]
    exact h.dialed
  · rw [ha]
    exact h.named
  · rw [ha, hc]
    exact h.same

theorem not_isIpLiteral_empty : isIpLiteral "" = false := by decide

theorem ne_empty_of_isIpLiteral {a : String} (h : isIpLiteral a = true) : a ≠ "" := by
  rintro rfl
  rw [not_isIpLiteral_empty] at h
  exact absurd h Bool.false_ne_true

theorem isIpLiteral_of_scanned {seed netmask : String} {target : Target}
    (h : Scanned seed netmask target) : isIpLiteral target.connectionAddress = true := by
  obtain ⟨-, answer, addresses, hs, ha⟩ := h
  exact isIpLiteral_of_mem_hosts (hosts_of_own_network hs) ha

/-- A miner that is added by a name has a proper record. -/
theorem proper_of_peer {W : Network → Prop} (hW : Nameless W) (hf : FindsAddresses W)
    {name : String} {ticket ticket' : Nat} {d : Device}
    (h : (Job.peer (Text.trim name) ticket).Yields W (.probed (.ok d) ticket')) :
    d.address = Text.trim name ∧ d.Proper := by
  obtain ⟨hp, hgoes, hdials⟩ := identity_of_peer h (Text.trim_trim name)
  have ha := hgoes.eq hW
  refine ⟨ha, ?_⟩
  rw [Dials] at hdials
  split at hdials
  · -- Asked by an address, the miner is dialed there.
    rename_i hip
    refine ⟨by rw [hdials]; exact hip, ?_, fun _ => ha.trans hdials.symm⟩
    rw [ha]
    exact isPeer_ne_empty hp
  · -- Asked by the name of a host, it is dialed where the host is found.
    rename_i hip
    obtain ⟨net, hn, delay, hr⟩ := hdials
    refine ⟨hf net hn _ _ _ hr, ?_, fun hl => ?_⟩
    · rw [ha]
      exact isPeer_ne_empty hp
    · rw [ha] at hl
      exact absurd hl hip

/-! ### Searching for a name -/

/-- No text is known to two miners. -/
def KnownOnce (ds : List Device) : Prop :=
  ds.Pairwise fun d e => ∀ x, ¬ (d.isKnownAs x = true ∧ e.isKnownAs x = true)

theorem Device.isKnownAs_iff {d : Device} {x : String} :
    d.isKnownAs x = true ↔ d.address = x ∨ d.connectionAddress = x := by
  rw [isKnownAs, Bool.or_eq_true, decide_eq_true_eq, decide_eq_true_eq]

/-- Whoever is known under a name is found under it, in whatever order the fleet is searched. -/
theorem KnownOnce.find?_eq {ds ds' : List Device} (h : KnownOnce ds) (hp : ds'.Perm ds)
    (x : String) : ds'.find? (·.isKnownAs x) = ds.find? (·.isKnownAs x) := by
  have hone : ∀ d ∈ ds, ∀ e ∈ ds, d.isKnownAs x = true → e.isKnownAs x = true → d = e := by
    intro d hd e he hdx hex
    refine Decidable.byContradiction fun hne => ?_
    have hsymm : Std.Symm fun d e : Device =>
        ∀ x, ¬ (d.isKnownAs x = true ∧ e.isKnownAs x = true) :=
      ⟨fun _ _ h x hx => h x hx.symm⟩
    exact List.Pairwise.forall h hd he hne x ⟨hdx, hex⟩
  exact (find?_eq_of_perm hp.symm hone).symm

/-- Miners that are dialed once have no address in common, and so nothing but the name of a
host. -/
theorem known_twice_of_proper {ds : List Device} (hp : ∀ d ∈ ds, d.Proper) (hd : DialedOnce ds) :
    ds.Pairwise fun d e => ∀ x, d.isKnownAs x = true → e.isKnownAs x = true →
      d.address = x ∧ e.address = x ∧ isIpLiteral x = false := by
  have hconn : ds.Pairwise fun d e => d.connectionAddress ≠ e.connectionAddress :=
    List.pairwise_map.mp hd
  refine hconn.imp_of_mem fun {d e} hd he hne x hdx hex => ?_
  rw [Device.isKnownAs_iff] at hdx hex
  -- An address by which a miner is known is the one where it is dialed.
  have hat : ∀ c ∈ ds, c.address = x ∨ c.connectionAddress = x → isIpLiteral x = true →
      c.connectionAddress = x := by
    intro c hc hcx hip
    rcases hcx with rfl | hcx
    · exact ((hp c hc).same hip).symm
    · exact hcx
  have hip : isIpLiteral x = false := by
    refine Bool.eq_false_iff.mpr fun hip => hne ?_
    rw [hat d hd hdx hip, hat e he hex hip]
  have hname : ∀ c ∈ ds, c.address = x ∨ c.connectionAddress = x → c.address = x := by
    intro c hc hcx
    refine hcx.resolve_right fun hcx => ?_
    have hlit := (hp c hc).dialed
    rw [hcx, hip] at hlit
    exact Bool.false_ne_true hlit
  exact ⟨hname d hd hdx, hname e he hex, hip⟩

theorem knownOnce_of_nodup {ds : List Device} (hp : ∀ d ∈ ds, d.Proper) (hd : DialedOnce ds)
    (hn : (ds.map (·.address)).Nodup) : KnownOnce ds := by
  have hname : ds.Pairwise fun d e => d.address ≠ e.address := List.pairwise_map.mp hn
  refine (hname.and (known_twice_of_proper hp hd)).imp ?_
  rintro d e ⟨hne, htwice⟩ x ⟨hdx, hex⟩
  obtain ⟨rfl, he, -⟩ := htwice x hdx hex
  exact hne he.symm

namespace System

variable {σ : Type} [Store σ] {W : Network → Prop}

/-! ### Proper records -/

omit [Store σ] in
/-- What a refresh keeps of a proper record: its address, and its name or that under which the
refresh knows it. -/
theorem AllRecords.keeps {s : System σ} (h : AllRecords Device.Proper s) (hW : Nameless W)
    {id n : Nat} {known : List Device} {fetchAsic : Bool}
    (hj : ⟨id, .refresh known n fetchAsic⟩ ∈ s.jobs)
    {d d' : Device} (hd : d.Keeps W known d') :
    d'.connectionAddress = d.connectionAddress ∧ (d'.address = d.address ∨
      ∃ k ∈ known, k.connectionAddress = d.connectionAddress ∧ d'.address = k.address) := by
  obtain ⟨hconn, ha⟩ := hd
  refine ⟨hconn, ha.imp_right ?_⟩
  rintro ⟨k, hk, hkconn, hname⟩
  exact ⟨k, hk, hkconn, (hname (h.known _ hj _ _ _ rfl k hk).named).eq hW⟩

theorem AllRecords.proper_turn {cs : List Command} {s : System σ}
    (h : AllRecords Device.Proper s) (hs : Tracked cs s) (hW : Nameless W) (hf : FindsAddresses W)
    {t : Turn} (ht : s.Possible W t) : ∀ d ∈ (s.turn t).devices, d.Proper := by
  have hr := hs.registered ht
  generalize (s.turn t).devices = after at hr
  cases t with
  | tick => exact fun d hd => h.devices d (hr d hd)
  | command c => exact fun d hd => h.devices d (hr d hd)
  | stop => exact fun d hd => h.devices d (hr d hd)
  | finish id result =>
    cases result with
    | probed result ticket =>
      intro d hd
      rcases hr d hd with hd | rfl
      · exact h.devices d hd
      · obtain ⟨name, -, -, hy⟩ := hs.peer_of_possible ht
        exact (proper_of_peer hW hf hy).2
    | discovered result =>
      intro d hd
      rcases hr d hd with hd | ⟨seed, netmask, n, -, hscanned, hgoes⟩
      · exact h.devices d hd
      · have hip : isIpLiteral d.connectionAddress = true := isIpLiteral_of_scanned hscanned
        have ha := hgoes.eq hW
        refine ⟨hip, ?_, fun _ => ha⟩
        rw [ha]
        exact ne_empty_of_isIpLiteral hip
    | refreshed report =>
      obtain ⟨known, n, fetchAsic, records, hj, hp, hkeeps⟩ := hr
      intro d' hd'
      obtain ⟨d, hd, hk⟩ := exists_of_mem_forall₂ hkeeps (hp.mem_iff.mp hd')
      -- The new record is as proper as the old one, or as the one that the refresh knows.
      obtain ⟨hconn, ha | ⟨k, hk, hkconn, ha⟩⟩ := h.keeps hW hj hk
      · exact (h.devices d hd).of_eq ha hconn
      · exact (h.known _ hj _ _ _ rfl k hk).of_eq ha (hconn.trans hkconn.symm)

theorem devices_started {config : Config} {store : σ} (hs : stored store = []) :
    (started config store).devices = [] := by
  have hp := (started_cases config store).2
  rw [hs] at hp
  exact hp.eq_nil

/-- What is under way from the start over an empty store knows no miners, and asks none. -/
theorem job_started {config : Config} {store : σ} (hs : stored store = []) {o : Ongoing}
    (ho : o ∈ (started config store).jobs) :
    (∀ known n fetchAsic, o.job = .refresh known n fetchAsic → known = []) ∧
      ∀ name ticket, o.job ≠ .peer name ticket := by
  rw [jobs_started] at ho
  have hm := (mem_numbered ho).2.2
  constructor
  · intro known n fetchAsic hj
    rw [hj] at hm
    have hk : known = (System.make config store).devices :=
      Engine.eq_devices_of_refresh_mem_launches hm
    have hp := perm_made config store
    rw [hs] at hp
    rw [hk, hp.eq_nil]
  · intro name ticket hj
    rw [hj] at hm
    obtain ⟨name', he, -⟩ := Engine.eq_add_of_peer_mem_launches hm
    cases he

/-- In every run over an empty store, all records are proper. -/
theorem Run.proper {config : Config} {store : σ} {ts : List Turn} {s : System σ}
    (h : Run W (started config store) ts s) (hW : Nameless W) (hf : FindsAddresses W)
    (hs : stored store = []) : AllRecords Device.Proper s := by
  induction h with
  | refl =>
    refine allRecords_started ?_
    rw [hs]
    exact List.forall_mem_nil _
  | turn h ht ih => exact ih.of_devices (ih.proper_turn h.tracked hW hf ht)

/-! ### Orderly runs -/

/-- A turn that keeps names apart: no host is to be added while it is being asked for another
request to add it, and no miner is added at an address that a refresh under way knows under another
name. -/
def Orderly (s : System σ) : Turn → Prop
  | .command (.add name) => isIpLiteral (Text.trim name) = true ∨
    ∀ o ∈ s.jobs, ∀ ticket, o.job ≠ .peer (Text.trim name) ticket
  | .finish _ (.probed (.ok d) _) => ∀ o ∈ s.jobs, ∀ known n fetchAsic,
    o.job = .refresh known n fetchAsic →
      ∀ k ∈ known, k.connectionAddress = d.connectionAddress → k.address = d.address
  | _ => True

/-- A run of turns that keep names apart. -/
inductive OrderlyRun (W : Network → Prop) (s : System σ) : List Turn → System σ → Prop
  | refl : OrderlyRun W s [] s
  | turn {ts : List Turn} {s' : System σ} {t : Turn} (h : OrderlyRun W s ts s')
      (ht : s'.Possible W t) (ho : s'.Orderly t) : OrderlyRun W s (ts ++ [t]) (s'.turn t)

theorem OrderlyRun.run {s s' : System σ} {ts : List Turn} (h : OrderlyRun W s ts s') :
    Run W s ts s' := by
  induction h with
  | refl => exact .refl
  | turn _ ht _ ih => exact ih.turn ht

/-- No two miners have the same name, and none will: who is being asked by the name of a host is
neither registered under it nor being asked by it once more, and a refresh knows each miner under
the name that it has. -/
structure Unambiguous (s : System σ) : Prop where
  named : (s.devices.map (·.address)).Nodup
  asked : ∀ o ∈ s.jobs, ∀ name ticket, o.job = .peer name ticket → isIpLiteral name = false →
    ∀ d ∈ s.devices, d.address ≠ name
  once : ∀ o ∈ s.jobs, ∀ o' ∈ s.jobs, ∀ name ticket ticket', o.job = .peer name ticket →
    o'.job = .peer name ticket' → isIpLiteral name = false → o.id = o'.id
  known : ∀ o ∈ s.jobs, ∀ known n fetchAsic, o.job = .refresh known n fetchAsic →
    ∀ k ∈ known, ∀ d ∈ s.devices, k.connectionAddress = d.connectionAddress →
      k.address = d.address

/-- A fleet without an identity that was not there before. -/
structure Within (before after : List Device) : Prop where
  named : (after.map (·.address)).Subperm (before.map (·.address))
  mem : ∀ d ∈ after, ∃ d₀ ∈ before,
    d.address = d₀.address ∧ d.connectionAddress = d₀.connectionAddress

theorem Within.of_perm {before after : List Device} (h : after.Perm before) :
    Within before after :=
  ⟨(h.map _).subperm, fun d hd => ⟨d, h.mem_iff.mp hd, rfl, rfl⟩⟩

/-- What a turn does to the identities of the miners: there is no new one, or a miner is added, or
a discovery brings newcomers. -/
inductive Gains (s : System σ) : Turn → List Device → Prop
  | nothing {t : Turn} {after : List Device} (h : Within s.devices after) : Gains s t after
  | added {id ticket : Nat} {d : Device} {after : List Device}
      (hd : d.connectionAddress ∉ dialed s.devices) (hp : after.Perm (d :: s.devices)) :
      Gains s (.finish id (.probed (.ok d) ticket)) after
  | discovered {id : Nat} {report : Report} {after : List Device} (hr : s.running = true)
      (hp : after.Perm (s.devices ++ Registry.newcomers s.devices report.devices)) :
      Gains s (.finish id (.discovered (.ok report))) after

omit [Store σ] in
/-- Where a refresh knows each miner under the name that it has, its end changes no identity. -/
theorem within_of_keeps {s : System σ} (h : Unambiguous s)
    (hproper : AllRecords Device.Proper s) (hW : Nameless W)
    {id n : Nat} {known records after : List Device} {fetchAsic : Bool}
    (hj : ⟨id, .refresh known n fetchAsic⟩ ∈ s.jobs) (hp : after.Perm records)
    (hk : List.Forall₂ (Device.Keeps W known) s.devices records) : Within s.devices after := by
  have hsame : ∀ d ∈ s.devices, ∀ d', d.Keeps W known d' →
      d'.address = d.address ∧ d'.connectionAddress = d.connectionAddress := by
    intro d hd d' hkeeps
    obtain ⟨hconn, ha | ⟨k, hk, hkconn, ha⟩⟩ := hproper.keeps hW hj hkeeps
    · exact ⟨ha, hconn⟩
    · exact ⟨ha.trans (h.known _ hj _ _ _ rfl k hk d hd hkconn), hconn⟩
  constructor
  · -- Place by place the names are the same; only then the fleet is put into order.
    have hnames : s.devices.map (·.address) = records.map (·.address) := by
      rw [← List.forall₂_eq_eq_eq, List.forall₂_map_left_iff, List.forall₂_map_right_iff]
      have hmem := (List.forall₂_and_left s.devices records).mpr ⟨fun d hd => hd, hk⟩
      exact hmem.imp fun d d' hd => (hsame d hd.1 d' hd.2).1.symm
    rw [hnames]
    exact (hp.map _).subperm
  · intro d' hd'
    obtain ⟨d, hd, hkeeps⟩ := exists_of_mem_forall₂ hk (hp.mem_iff.mp hd')
    exact ⟨d, hd, hsame d hd d' hkeeps⟩

theorem Unambiguous.gains {cs : List Command} {s : System σ} (h : Unambiguous s)
    (hproper : AllRecords Device.Proper s) (hs : Tracked cs s) (hW : Nameless W) {t : Turn}
    (ht : s.Possible W t) :
    Gains s t (s.turn t).devices := by
  obtain ⟨new, -, hf⟩ := hs.fleetTurn ht
  have hreg := hs.registered ht
  rcases turn_cases s t with ⟨event, he, -⟩ | ⟨-, hrests⟩
  · have hr := (event?_eq_some.mp he).1
    generalize (s.turn t).devices = after at hf hreg
    cases hf with
    | kept hp _ => exact .nothing (.of_perm hp)
    | removed _ hp =>
      refine .nothing ⟨?_, fun d hd => ⟨d, hp.mem_iff.mpr (List.mem_cons_of_mem _ hd), rfl, rfl⟩⟩
      rw [(hp.map (·.address)).subperm_left, List.map_cons]
      exact (List.sublist_cons_self _ _).subperm
    | added _ hd hp => exact .added hd hp
    | discovered hp => exact .discovered hr hp
    | refreshed _ =>
      obtain ⟨known, n, fetchAsic, records, hj, hp, hkeeps⟩ := hreg
      exact .nothing (within_of_keeps h hproper hW hj hp hkeeps)
  · refine .nothing (.of_perm (.of_eq ?_))
    rw [devices, hrests.engine, devices]

/-- What is launched is launched by an event that ends no job, and after it there is no identity
that was not there before. -/
theorem within_of_launched {s : System σ} {t : Turn} {event : Event} {after : List Device}
    {o : Ongoing} (he : s.event? t = some event)
    (ho : o ∈ numbered s.launched (launches (s.engine.step event).2))
    (hg : Gains s t after) : Within s.devices after := by
  cases hg with
  | nothing h => exact h
  | added _ _ =>
    cases (event?_eq_some.mp he).2
    rw [(Engine.step_finished _ _).1] at ho
    exact absurd ho List.not_mem_nil
  | discovered _ _ =>
    cases (event?_eq_some.mp he).2
    rw [(Engine.step_finished _ _).1] at ho
    exact absurd ho List.not_mem_nil

omit [Store σ] in
/-- A job that has ended is not among those that go on. -/
theorem id_ne_of_mem_before {s : System σ} {id : Nat} {result : JobResult} {o : Ongoing}
    (ho : o ∈ (s.before (.finish id result)).jobs) : o.id ≠ id := by
  have hm := (List.mem_filter.mp ho).2
  simpa using hm

section

variable {cs : List Command} {s : System σ} {t : Turn} {after : List Device}

omit [Store σ] in
/-- A miner that is added has the name of no other. -/
theorem Unambiguous.name_of_added (h : Unambiguous s)
    (hproper : AllRecords Device.Proper s) (hs : Tracked cs s) (hW : Nameless W)
    (hf : FindsAddresses W) {id ticket : Nat} {d : Device}
    (ht : s.Possible W (.finish id (.probed (.ok d) ticket)))
    (hd : d.connectionAddress ∉ dialed s.devices) : d.address ∉ s.devices.map (·.address) := by
  obtain ⟨name, hj, -, hy⟩ := hs.peer_of_possible ht
  obtain ⟨ha, hd'⟩ := proper_of_peer hW hf hy
  rw [List.mem_map]
  rintro ⟨d₀, hd₀, he⟩
  cases hip : isIpLiteral d.address with
  | false =>
    rw [ha] at hip
    exact h.asked _ hj _ _ rfl hip d₀ hd₀ (he.trans ha)
  | true =>
    -- Who has this address for a name is dialed there, where nobody is.
    have hsame := (hproper.devices d₀ hd₀).same (by rw [he]; exact hip)
    have hdialed : d₀.connectionAddress = d.connectionAddress := by
      rw [← hsame, he, hd'.same hip]
    exact hd (mem_dialed.mpr ⟨d₀, hd₀, hdialed⟩)

omit [Store σ] in
theorem Unambiguous.named_turn (h : Unambiguous s)
    (hproper : AllRecords Device.Proper s) (hs : Tracked cs s) (hW : Nameless W)
    (hf : FindsAddresses W) (ht : s.Possible W t) (hg : Gains s t after) :
    (after.map (·.address)).Nodup := by
  cases hg with
  | nothing hw =>
    obtain ⟨names, hp, hsub⟩ := hw.named
    exact hp.nodup_iff.mp (hsub.nodup h.named)
  | added hd hp =>
    rw [(hp.map (·.address)).nodup_iff, List.map_cons, List.nodup_cons]
    exact ⟨h.name_of_added hproper hs hW hf ht hd, h.named⟩
  | @discovered _ report _ _ hp =>
    -- Newcomers share no name with the fleet, nor with each other.
    have hne : ∀ a b : Device, a.sameIdentity b = false → a.address ≠ b.address :=
      fun a b hab => (Device.sameIdentity_eq_false.mp hab).1
    rw [(hp.map (·.address)).nodup_iff, List.map_append, List.nodup_append]
    refine ⟨h.named, ?_, ?_⟩
    · exact List.Pairwise.map _ hne (Registry.pairwise_newcomers s.devices report.devices)
    · intro a ha b hb
      obtain ⟨x, hx, rfl⟩ := List.mem_map.mp ha
      obtain ⟨y, hy, rfl⟩ := List.mem_map.mp hb
      exact hne x y (Registry.not_sameIdentity_of_mem_newcomers hx hy)

omit [Store σ] in
/-- A miner that a discovery brings goes by an address. -/
theorem isIpLiteral_of_newcomer (hW : Nameless W) {id : Nat} {report : Report}
    (ht : s.Possible W (.finish id (.discovered (.ok report)))) {d : Device}
    (hd : d ∈ Registry.newcomers s.devices report.devices) : isIpLiteral d.address = true := by
  obtain ⟨job, -, hy⟩ := ht
  obtain ⟨seed, netmask, n, rfl⟩ := hy.fits.eq_discovery
  have hm := (Registry.newcomers_sublist _ _).subset hd
  obtain ⟨hscanned, hgoes⟩ := mem_of_discovery hy hm
  rw [hgoes.eq hW]
  exact isIpLiteral_of_scanned hscanned

theorem Unambiguous.asked_turn (h : Unambiguous s) (hs : Tracked cs s) (hW : Nameless W)
    (hf : FindsAddresses W) (ht : s.Possible W t) (hg : Gains s t (s.turn t).devices) :
    ∀ o ∈ (s.turn t).jobs, ∀ name ticket, o.job = .peer name ticket → isIpLiteral name = false →
      ∀ d ∈ (s.turn t).devices, d.address ≠ name := by
  intro o ho name ticket hj hip d hd
  rcases mem_jobs_turn ho with ho | ⟨event, he, ho⟩
  · have hmem := (before_jobs_sublist s t).subset ho
    have hold : ∀ d ∈ s.devices, d.address ≠ name := h.asked o hmem name ticket hj hip
    generalize (s.turn t).devices = after at hg hd
    cases hg with
    | nothing hw =>
      obtain ⟨d₀, hd₀, ha, -⟩ := hw.mem d hd
      rw [ha]
      exact hold d₀ hd₀
    | added _ hp =>
      rcases List.mem_cons.mp (hp.mem_iff.mp hd) with rfl | hd
      · -- The miner was asked by its own name, and by this name no other is being asked.
        rintro rfl
        obtain ⟨name', hj', -, hy⟩ := hs.peer_of_possible ht
        obtain ⟨ha, -⟩ := proper_of_peer hW hf hy
        rw [ha] at hj hip
        exact id_ne_of_mem_before ho (h.once o hmem _ hj' _ _ _ hj rfl hip)
      · exact hold d hd
    | discovered hr hp =>
      rcases List.mem_append.mp (hp.mem_iff.mp hd) with hd | hd
      · exact hold d hd
      · rintro rfl
        rw [isIpLiteral_of_newcomer hW ht hd] at hip
        exact absurd hip (by decide)
  · -- A miner is asked only by a name under which none is registered.
    obtain ⟨d₀, hd₀, ha, -⟩ := (within_of_launched he ho hg).mem d hd
    have hm := (mem_numbered ho).2.2
    rw [hj] at hm
    obtain ⟨name', -, -, hnone⟩ := Engine.eq_add_of_peer_mem_launches hm
    rintro rfl
    have hknown : d₀.isKnownAs d.address = true := Device.isKnownAs_iff.mpr (.inl ha.symm)
    exact List.find?_eq_none.mp hnone d₀ hd₀ hknown

theorem Unambiguous.once_turn (h : Unambiguous s) (ho : s.Orderly t) :
    ∀ o ∈ (s.turn t).jobs, ∀ o' ∈ (s.turn t).jobs, ∀ name ticket ticket',
      o.job = .peer name ticket → o'.job = .peer name ticket' → isIpLiteral name = false →
      o.id = o'.id := by
  -- A question that is new is put by a name by which none of the others is.
  have hnew : ∀ {event : Event} {o o' : Ongoing}, s.event? t = some event →
      o ∈ numbered s.launched (launches (s.engine.step event).2) → o' ∈ s.jobs →
      ∀ name ticket ticket', o.job = .peer name ticket → o'.job = .peer name ticket' →
      isIpLiteral name = false → False := by
    intro event o o' he hmem hmem' name ticket ticket' hj hj' hip
    have hm := (mem_numbered hmem).2.2
    rw [hj] at hm
    obtain ⟨name', rfl, rfl, -⟩ := Engine.eq_add_of_peer_mem_launches hm
    obtain ⟨rfl, -⟩ := command_of_event? he
    rcases ho with hip' | hnot
    · rw [hip] at hip'
      exact absurd hip' Bool.false_ne_true
    · exact hnot o' hmem' ticket' hj'
  intro o hm o' hm' name ticket ticket' hj hj' hip
  rcases mem_jobs_turn hm with hm | ⟨event, he, hm⟩
  · have hold := (before_jobs_sublist s t).subset hm
    rcases mem_jobs_turn hm' with hm' | ⟨event, he, hm'⟩
    · exact h.once o hold o' ((before_jobs_sublist s t).subset hm') name ticket ticket' hj hj' hip
    · exact (hnew he hm' hold name ticket' ticket hj' hj hip).elim
  · rcases mem_jobs_turn hm' with hm' | ⟨event', he', hm'⟩
    · exact (hnew he hm ((before_jobs_sublist s t).subset hm') name ticket ticket' hj hj' hip).elim
    · -- Both are new, and a turn launches one job at most.
      obtain rfl : event = event' := Option.some.inj (he.symm.trans he')
      have hlen := Engine.length_launches_le s.engine event
      have h1 := mem_numbered hm
      have h2 := mem_numbered hm'
      omega

theorem Unambiguous.known_turn (h : Unambiguous s) (hd : DialedOnce s.devices)
    (hc : s.running = true → Coherent s) (ht : s.Possible W t) (ho : s.Orderly t)
    (hg : Gains s t (s.turn t).devices) :
    ∀ o ∈ (s.turn t).jobs, ∀ known n fetchAsic, o.job = .refresh known n fetchAsic →
      ∀ k ∈ known, ∀ d ∈ (s.turn t).devices, k.connectionAddress = d.connectionAddress →
        k.address = d.address := by
  intro o hm known n fetchAsic hj k hk d hdm hconn
  rcases mem_jobs_turn hm with hm | ⟨event, he, hm⟩
  · have hmem := (before_jobs_sublist s t).subset hm
    have hold := h.known o hmem known n fetchAsic hj k hk
    generalize (s.turn t).devices = after at hg hdm
    cases hg with
    | nothing hw =>
      obtain ⟨d₀, hd₀, ha, hc₀⟩ := hw.mem d hdm
      rw [ha]
      exact hold d₀ hd₀ (hconn.trans hc₀)
    | added _ hp =>
      rcases List.mem_cons.mp (hp.mem_iff.mp hdm) with rfl | hdm
      · exact ho o hmem known n fetchAsic hj k hk hconn
      · exact hold d hdm hconn
    | discovered hr hp =>
      rcases List.mem_append.mp (hp.mem_iff.mp hdm) with hdm | hdm
      · exact hold d hdm hconn
      · -- A discovery ends while no refresh is under way.
        obtain ⟨job, hjob, hy⟩ := ht
        have hpass : o.job.isRefresh = true := by rw [hj]; rfl
        have heq := (hc hr).eq_of_isPass hmem hjob (Job.isPass_of_isRefresh hpass)
          (Job.isPass_of_isDiscovery hy.fits)
        rw [← heq] at hj
        obtain rfl : job = .refresh known n fetchAsic := hj
        exact absurd hy.fits Bool.false_ne_true
  · -- A refresh that is new knows the fleet itself, in which each miner is dialed once.
    rw [known_eq_devices hm hj] at hk
    obtain ⟨d₀, hd₀, ha, hc₀⟩ := (within_of_launched he hm hg).mem d hdm
    have heq : k = d₀ := List.inj_on_of_nodup_map hd hk hd₀ (hconn.trans hc₀)
    rw [heq, ha]

/-- A turn in order keeps names apart. -/
theorem Unambiguous.turn (h : Unambiguous s) (hproper : AllRecords Device.Proper s)
    (hs : Tracked cs s) (hd : DialedOnce s.devices) (hc : s.running = true → Coherent s)
    (hW : Nameless W) (hf : FindsAddresses W) (ht : s.Possible W t) (ho : s.Orderly t) :
    Unambiguous (s.turn t) := by
  have hg := h.gains hproper hs hW ht
  exact ⟨h.named_turn hproper hs hW hf ht hg, h.asked_turn hs hW hf ht hg, h.once_turn ho,
    h.known_turn hd hc ht ho hg⟩

end

theorem unambiguous_started {config : Config} {store : σ} (hs : stored store = []) :
    Unambiguous (started config store) := by
  constructor
  · rw [devices_started hs]
    exact List.nodup_nil
  · intro o ho name ticket hj
    exact absurd hj ((job_started hs ho).2 name ticket)
  · intro o ho o' _ name ticket ticket' hj
    exact absurd hj ((job_started hs ho).2 name ticket)
  · intro o ho known n fetchAsic hj k hk
    rw [(job_started hs ho).1 known n fetchAsic hj] at hk
    exact absurd hk List.not_mem_nil

theorem dialedOnce_of_stored {store : σ} (hs : stored store = []) : DialedOnce (stored store) := by
  rw [hs]
  exact List.nodup_nil

/-- In every orderly run over an empty store, names are kept apart. -/
theorem OrderlyRun.unambiguous {config : Config} {store : σ} {ts : List Turn} {s : System σ}
    (h : OrderlyRun W (started config store) ts s) (hW : Nameless W) (hf : FindsAddresses W)
    (hs : stored store = []) : Unambiguous s := by
  induction h with
  | refl => exact unambiguous_started hs
  | turn h ht ho ih =>
    exact ih.turn (h.run.proper hW hf hs) h.run.tracked (h.run.dialedOnce (dialedOnce_of_stored hs))
      h.run.coherent hW hf ht ho

omit [Store σ] in
/-- What is published shows the miners of the fleet in their order. -/
theorem find?_published {cs : List Command} {s : System σ} (h : Tracked cs s) (x : String) :
    (s.published.find? x).map (·.device) = s.devices.find? (·.isKnownAs x) := by
  rw [h.published, Snapshot.find?, Engine.snapshot, List.find?_map, Option.map_map]
  show (s.devices.find? _).map id = _
  rw [Option.map_id]
  rfl

/-- Two miners of a fleet share at most the name of a host, in every run over an empty store where
no miner gives itself a name. In an orderly run they do not share that either, so that it does not
depend on the order of the fleet which miner is found by a name, in the registry and in what is
published. -/
theorem known_once_in_orderly_runs {config : Config} {store : σ} (hW : Nameless W)
    (hf : FindsAddresses W) (hs : stored store = []) :
    (∀ ts s, Run W (started config store) ts s →
      s.devices.Pairwise fun d e => ∀ x, d.isKnownAs x = true → e.isKnownAs x = true →
        d.address = x ∧ e.address = x ∧ isIpLiteral x = false) ∧
    ∀ ts s, OrderlyRun W (started config store) ts s →
      KnownOnce s.devices ∧ ∀ ds : List Device, ds.Perm s.devices → ∀ x,
        s.engine.registry.find? x = ds.find? (·.isKnownAs x) ∧
          (s.published.find? x).map (·.device) = ds.find? (·.isKnownAs x) := by
  have hstored := dialedOnce_of_stored hs
  constructor
  · intro ts s h
    exact known_twice_of_proper (h.proper hW hf hs).devices (h.dialedOnce hstored)
  · intro ts s h
    have hknown : KnownOnce s.devices :=
      knownOnce_of_nodup (h.run.proper hW hf hs).devices (h.run.dialedOnce hstored)
        (h.unambiguous hW hf hs).named
    refine ⟨hknown, fun ds hp x => ?_⟩
    rw [hknown.find?_eq hp x]
    exact ⟨rfl, find?_published h.run.tracked x⟩

/-! ### A host that moves -/

/-- The network on which a host is found at another address than on `lan`. -/
def movedLan : Network :=
  { lan with resolve := fun _ => .after 0 (.ok "10.1.1.51") }

/-- Hosts are found at one address or at the other. -/
def Moving (net : Network) : Prop :=
  net = lan ∨ net = movedLan

theorem nameless_moving : Nameless Moving := by
  rintro address name ⟨hne, net, hn, delay, payload, hown, h⟩
  refine hne ?_
  rw [← hown]
  rcases hn with rfl | rfl <;> rcases h with h | h <;> cases h <;> rfl

theorem findsAddresses_moving : FindsAddresses Moving := by
  intro net hn host delay address h
  rcases hn with rfl | rfl <;> cases h <;> decide

/-- The start of an engine without a seed, over an empty store. -/
def idle : System MemoryStore :=
  started default KeyMap.empty

/-- A miner is to be added by the name of a host. -/
def addsHost : Turn :=
  .command (.add "gamma.local")

/-- The host is found at an address, and its miner has answered. -/
def hostFound (id : Nat) (address : String) : Turn :=
  .finish id (.probed (.ok (found "gamma.local" address)) id)

/-- While no miner is being refreshed, one can be added under any name. -/
theorem orderly_of_not_refreshing {s : System MemoryStore} {id : Nat} {result : JobResult}
    (h : (s.jobs.all fun o => !o.job.isRefresh) = true) : s.Orderly (.finish id result) := by
  have hnone : ∀ o ∈ s.jobs, ∀ known n fetchAsic, o.job ≠ .refresh known n fetchAsic := by
    intro o ho known n fetchAsic hj
    have hnot := List.all_eq_true.mp h o ho
    rw [hj] at hnot
    exact absurd hnot Bool.false_ne_true
  cases result with
  | probed result ticket =>
    cases result with
    | ok d => exact fun o ho known n fetchAsic hj => absurd hj (hnone o ho known n fetchAsic)
    | error fault => trivial
  | discovered result => trivial
  | refreshed report => trivial

/-- A host has been added, and then a miner by its address. -/
def hostAndMiner : System MemoryStore :=
  (((idle.turn addsHost).turn (hostFound 0 "10.1.1.50")).turn (.command (.add "10.1.1.60"))).turn
    (.finish 1 (.probed (.ok (found "10.1.1.60" "10.1.1.60")) 1))

/-- A host and another miner, added one after the other: each is found by its name and by its
address, also if the fleet is searched from its end. -/
theorem known_once_after_two_requests :
    Nameless Moving ∧ FindsAddresses Moving ∧ stored (KeyMap.empty : MemoryStore) = [] ∧
      OrderlyRun Moving idle
        [addsHost, hostFound 0 "10.1.1.50", .command (.add "10.1.1.60"),
          .finish 1 (.probed (.ok (found "10.1.1.60" "10.1.1.60")) 1)] hostAndMiner ∧
      hostAndMiner.devices =
        [found "10.1.1.60" "10.1.1.60", found "gamma.local" "10.1.1.50"] ∧
      KnownOnce hostAndMiner.devices ∧
      ∀ x, hostAndMiner.engine.registry.find? x =
          hostAndMiner.devices.reverse.find? (·.isKnownAs x) ∧
        (hostAndMiner.published.find? x).map (·.device) =
          hostAndMiner.devices.reverse.find? (·.isKnownAs x) := by
  have hstored : stored (KeyMap.empty : MemoryStore) = [] := by decide +kernel
  have hjobs : idle.jobs = [] := by decide +kernel
  have hadds : OrderlyRun Moving idle ([] ++ [addsHost]) (idle.turn addsHost) := by
    refine .turn .refl trivial (.inr fun o ho => ?_)
    rw [hjobs] at ho
    exact absurd ho List.not_mem_nil
  have hhost : OrderlyRun Moving idle ([addsHost] ++ [hostFound 0 "10.1.1.50"]) _ :=
    .turn hadds (possible_finish lan (.peer "gamma.local" 0) (by decide +kernel)
      (by decide +kernel) (.inl rfl)) (orderly_of_not_refreshing (by decide +kernel))
  have hasked : OrderlyRun Moving idle
      ([addsHost, hostFound 0 "10.1.1.50"] ++ [.command (.add "10.1.1.60")]) _ :=
    .turn hhost trivial (.inl (by decide))
  have hrun : OrderlyRun Moving idle _ hostAndMiner :=
    .turn hasked (possible_finish lan (.peer "10.1.1.60" 1) (by decide +kernel)
      (by decide +kernel) (.inl rfl)) (orderly_of_not_refreshing (by decide +kernel))
  obtain ⟨-, horderly⟩ := known_once_in_orderly_runs nameless_moving findsAddresses_moving hstored
  obtain ⟨honce, hfind⟩ := horderly _ hostAndMiner hrun
  exact ⟨nameless_moving, findsAddresses_moving, hstored, hrun, by decide +kernel, honce,
    hfind hostAndMiner.devices.reverse (List.reverse_perm _)⟩

/-- A host that is to be added twice at a time, and is found at two addresses, is registered
twice. -/
theorem known_twice_after_two_requests :
    let s := (((idle.turn addsHost).turn addsHost).turn (hostFound 0 "10.1.1.50")).turn
      (hostFound 1 "10.1.1.51")
    Nameless Moving ∧ FindsAddresses Moving ∧ stored (KeyMap.empty : MemoryStore) = [] ∧
      Run Moving idle [addsHost, addsHost, hostFound 0 "10.1.1.50", hostFound 1 "10.1.1.51"] s ∧
      s.devices = [found "gamma.local" "10.1.1.50", found "gamma.local" "10.1.1.51"] ∧
      ¬ KnownOnce s.devices := by
  intro s
  have hdevices :
      s.devices = [found "gamma.local" "10.1.1.50", found "gamma.local" "10.1.1.51"] := by
    decide +kernel
  have hadds : Run Moving idle ([] ++ [addsHost] ++ [addsHost]) _ :=
    .turn (.turn .refl trivial) trivial
  have hone : Run Moving idle ([addsHost, addsHost] ++ [hostFound 0 "10.1.1.50"]) _ :=
    .turn hadds (possible_finish lan (.peer "gamma.local" 0) (by decide +kernel)
      (by decide +kernel) (.inl rfl))
  have hrun : Run Moving idle _ s :=
    .turn hone (possible_finish movedLan (.peer "gamma.local" 1) (by decide +kernel)
      (by decide +kernel) (.inr rfl))
  refine ⟨nameless_moving, findsAddresses_moving, by decide +kernel, hrun, hdevices, fun h => ?_⟩
  rw [hdevices] at h
  have hnot := List.rel_of_pairwise_cons h (List.mem_singleton_self _)
  exact hnot "gamma.local" (by decide +kernel)

end System

end MinerFleet
