/-
Under which names and addresses the miners of a run are registered.

* `Device.Keeps` — what a refresh may make of the names of a record;
* `Registered` — what a turn does to the names of the records: a discovery brings miners that go
  by their addresses, and a refresh keeps what it finds.

`registered_in_every_run` holds of every run, whatever the miners answer: all that an answer can
change is the name, and only if it gives one (`Device.GoesBy`). So the answers of the miners leave
the identity of each record alone where none of them gives a name, and else not
(`renamed_by_own_answer`).
-/
import Mathlib.Data.List.Forall2
import MinerFleet.Proofs.Probe.Identity
import MinerFleet.Proofs.System.Overlap

namespace MinerFleet

/-- A refresh leaves the address that is dialed alone. The miner goes by the name that it has, or
by that under which the refresh knows a miner at this address, unless this has no name. -/
def Device.Keeps (W : Network → Prop) (known : List Device) (before after : Device) : Prop :=
  after.connectionAddress = before.connectionAddress ∧
    (after.address = before.address ∨
      ∃ k ∈ known, k.connectionAddress = before.connectionAddress ∧
        (k.address ≠ "" → after.GoesBy W k.address))

theorem Device.Keeps.refl (W : Network → Prop) (known : List Device) (d : Device) :
    d.Keeps W known d :=
  ⟨rfl, .inl rfl⟩

/-- Each place of the fleet keeps its record, or gets a result for its address. -/
theorem Registry.forall₂_replaceFrom (refreshed : List Device) (taken : List String)
    (ds : List Device) :
    List.Forall₂ (fun d d' => d' = d ∨
        d' ∈ refreshed ∧ d'.connectionAddress = d.connectionAddress)
      ds (replaceFrom refreshed taken ds) := by
  induction ds generalizing taken with
  | nil => exact .nil
  | cons d ds ih =>
    by_cases ht : d.connectionAddress ∈ taken
    · rw [replaceFrom_cons_of_taken ht]
      exact .cons (.inl rfl) (ih taken)
    · obtain ⟨taken', -, he⟩ := replaceFrom_cons refreshed ht ds
      rw [he]
      refine .cons ?_ (ih taken')
      -- The first place with an address takes the last result for it, if there is one.
      rw [updated]
      cases h : resultFor refreshed d.connectionAddress with
      | none => exact .inl rfl
      | some fresh =>
        refine .inr ⟨?_, resultFor_connectionAddress h⟩
        exact List.mem_reverse.mp (List.mem_of_find?_eq_some h)

namespace System

variable {σ : Type} [Store σ] {W : Network → Prop}

/-- What a turn does to the names and addresses of the records.

* A miner that a discovery brings was asked at a host of the network; this is where it is dialed,
  and it goes by this address.
* Of each record, a refresh keeps its address and its name (`Device.Keeps`).
* A miner that is added is the one that was asked for.
* Nothing else brings a record. -/
def Registered (W : Network → Prop) (s : System σ) : Turn → List Device → Prop
  | .finish id (.discovered _), after => ∀ d ∈ after, d ∈ s.devices ∨
    ∃ seed netmask n, ⟨id, .discovery seed netmask n⟩ ∈ s.jobs ∧
      Scanned seed netmask ⟨d.connectionAddress, none⟩ ∧ d.GoesBy W d.connectionAddress
  | .finish id (.refreshed _), after => ∃ known n fetchAsic records,
    ⟨id, .refresh known n fetchAsic⟩ ∈ s.jobs ∧ after.Perm records ∧
      List.Forall₂ (Device.Keeps W known) s.devices records
  | .finish _ (.probed result _), after => ∀ d ∈ after, d ∈ s.devices ∨ result = .ok d
  | _, after => ∀ d ∈ after, d ∈ s.devices

/-- What is known about the miner that a reply gives to a request to add one: it goes by the name
that was asked for, and is dialed at an address that this name stands for. -/
def AddedByName (W : Network → Prop) (cs : List Command) (r : Sent) (d : Device) : Prop :=
  ∃ name, cs[r.ticket]? = some (.add name) ∧ d.GoesBy W (Text.trim name) ∧
    Dials W (Text.trim name) d.connectionAddress

omit [Store σ] in
/-- A question to a miner that ends was put for a request to add it. -/
theorem Tracked.peer_of_possible {cs : List Command} {s : System σ} (h : Tracked cs s)
    {id ticket : Nat} {result : Except Fault Device}
    (ht : s.Possible W (.finish id (.probed result ticket))) :
    ∃ name, ⟨id, .peer (Text.trim name) ticket⟩ ∈ s.jobs ∧ cs[ticket]? = some (.add name) ∧
      (Job.peer (Text.trim name) ticket).Yields W (.probed result ticket) := by
  obtain ⟨job, hj, hy⟩ := ht
  obtain ⟨name, rfl⟩ : ∃ name, job = .peer name ticket := hy.fits
  obtain ⟨name', hc, rfl⟩ := h.peers _ hj name ticket rfl
  exact ⟨name', hj, hc, hy⟩

/-- What a refresh gives for a record is kept by it. -/
theorem keeps_of_refresh {known : List Device} {n : Nat} {fetchAsic : Bool} {report : Report}
    (h : (Job.refresh known n fetchAsic).Yields W (.refreshed report)) {d d' : Device}
    (hd : d' = d ∨ d' ∈ report.devices ∧ d'.connectionAddress = d.connectionAddress) :
    d.Keeps W known d' := by
  rcases hd with rfl | ⟨hm, hconn⟩
  · exact .refl W known d'
  · obtain ⟨k, hk, hkconn, hname⟩ := mem_of_refresh h hm
    exact ⟨hconn, .inr ⟨k, hk, hkconn.trans hconn, hname⟩⟩

theorem Tracked.registered {cs : List Command} {s : System σ} (h : Tracked cs s) {t : Turn}
    (ht : s.Possible W t) : Registered W s t (s.turn t).devices := by
  obtain ⟨new, -, hf⟩ := h.fleetTurn ht
  generalize (s.turn t).devices = after at hf ⊢
  cases t with
  | tick =>
    cases hf with
    | kept hp _ => exact fun d hd => hp.mem_iff.mp hd
  | stop =>
    cases hf with
    | kept hp _ => exact fun d hd => hp.mem_iff.mp hd
  | command c =>
    cases hf with
    | kept hp _ => exact fun d hd => hp.mem_iff.mp hd
    | removed _ hp => exact fun d hd => hp.mem_iff.mpr (List.mem_cons_of_mem _ hd)
  | finish id result =>
    obtain ⟨job, hj, hy⟩ := ht
    cases result with
    | probed result ticket =>
      cases hf with
      | kept hp _ => exact fun d hd => .inl (hp.mem_iff.mp hd)
      | added _ _ hp =>
        intro d hd
        rcases List.mem_cons.mp (hp.mem_iff.mp hd) with rfl | hd
        · exact .inr rfl
        · exact .inl hd
    | discovered result =>
      intro d hd
      cases hf with
      | kept hp _ => exact .inl (hp.mem_iff.mp hd)
      | @discovered _ report _ hp =>
        rcases List.mem_append.mp (hp.mem_iff.mp hd) with hd | hd
        · exact .inl hd
        · have hm := (Registry.newcomers_sublist _ _).subset hd
          obtain ⟨seed, netmask, n, rfl⟩ := hy.fits.eq_discovery
          exact .inr ⟨seed, netmask, n, hj, mem_of_discovery hy hm⟩
    | refreshed report =>
      obtain ⟨known, n, fetchAsic, rfl⟩ := hy.fits.eq_refresh
      cases hf with
      | kept hp _ =>
        exact ⟨known, n, fetchAsic, s.devices, hj, hp,
          List.forall₂_same.mpr fun d _ => .refl W known d⟩
      | refreshed hp =>
        exact ⟨known, n, fetchAsic, _, hj, hp,
          (Registry.forall₂_replaceFrom _ _ _).imp fun _ _ => keeps_of_refresh hy⟩

theorem Tracked.addedByName_turn {cs : List Command} {s : System σ} (h : Tracked cs s)
    (ha : ∀ r ∈ s.replies, ∀ d, r.Added cs d → AddedByName W cs r d) {t : Turn}
    (ht : s.Possible W t) :
    ∀ r ∈ (s.turn t).replies, ∀ d, r.Added (cs ++ asked [t]) d →
      AddedByName W (cs ++ asked [t]) r d := by
  obtain ⟨new, hnew, hf⟩ := h.fleetTurn ht
  intro r hr d hd
  rw [hnew] at hr
  rcases List.mem_append.mp hr with hr | hr
  · -- A new reply gives a miner only where its question has just ended.
    generalize (s.turn t).devices = after at hf
    cases hf with
    | kept _ hn => exact absurd hd.2 (hn r hr d)
    | removed hrem _ =>
      rw [List.mem_singleton.mp hr] at hd
      exact absurd hd hrem.not_added
    | discovered _ => exact absurd hr List.not_mem_nil
    | refreshed _ => exact absurd hr List.not_mem_nil
    | added hadd _ _ =>
      rw [List.mem_singleton.mp hr] at hd ⊢
      rw [← hadd.eq_of_added hd]
      obtain ⟨name, -, hc, hy⟩ := h.peer_of_possible ht
      refine ⟨name, ?_, (identity_of_peer hy (Text.trim_trim name)).2⟩
      rw [List.getElem?_append_left (List.getElem?_eq_some_iff.mp hc).choose]
      exact hc
  · -- What an old reply was about does not change with the commands that follow.
    have hlt := h.replies r hr
    obtain ⟨name, hc, hname⟩ := ha r hr d ((Sent.added_append hlt _ d).mp hd)
    exact ⟨name, by rw [List.getElem?_append_left hlt]; exact hc, hname⟩

theorem Run.addedByName {config : Config} {store : σ} {s : System σ} {ts : List Turn}
    (h : Run W (started config store) ts s) :
    ∀ r ∈ s.replies, ∀ d, r.Added (asked ts) d → AddedByName W (asked ts) r d := by
  induction h with
  | refl =>
    intro r hr
    rw [(started_cases config store).1] at hr
    exact absurd hr List.not_mem_nil
  | turn h ht ih =>
    rw [asked_append]
    exact h.tracked.addedByName_turn ih ht

/-- In every run, whatever the miners answer: who is added by hand goes by the name that was asked
for and is dialed where this name leads, and no turn changes the identity of a record, up to the
names that miners give themselves. -/
theorem registered_in_every_run {config : Config} {store : σ} {ts : List Turn} {s : System σ}
    (h : Run W (started config store) ts s) :
    (∀ r ∈ s.replies, ∀ d, r.Added (asked ts) d → AddedByName W (asked ts) r d) ∧
      ∀ t, s.Possible W t → Registered W s t (s.turn t).devices :=
  ⟨h.addedByName, fun _ ht => h.tracked.registered ht⟩

/-- The first refresh over two miners. -/
theorem registered_of_two :
    let s := started default twoMiners
    let t := Turn.finish 0 (.refreshed twoFound)
    Run (· = lan) (started default twoMiners) [] s ∧ s.Possible (· = lan) t ∧
      Registered (· = lan) s t (s.turn t).devices := by
  intro s t
  have h : Run (· = lan) (started default twoMiners) [] s := .refl
  have ht : s.Possible (· = lan) t := refreshed_of_requested (by decide +kernel)
  exact ⟨h, ht, (registered_in_every_run h).2 t ht⟩

/-- A network where every miner answers with the same name of its own. -/
def boastful : Network :=
  { lan with info := fun _ => .after 0 (.ok (.object
      [("ASICModel", .string "BM1370"), ("address", .string "10.1.1.99")])) }

def twoRenamed : Report :=
  ⟨[found "10.1.1.99" "10.1.1.50", found "10.1.1.99" "10.1.1.60"], []⟩

/-- Two miners that answer with a name of their own are registered under this name after the
first refresh. -/
theorem renamed_by_own_answer :
    let s := started default twoMiners
    let t := Turn.finish 0 (.refreshed twoRenamed)
    s.Possible (· = boastful) t ∧
      s.devices.map (fun d => (d.address, d.connectionAddress)) =
        [("10.1.1.50", "10.1.1.50"), ("10.1.1.60", "10.1.1.60")] ∧
      (s.turn t).devices.map (fun d => (d.address, d.connectionAddress)) =
        [("10.1.1.99", "10.1.1.50"), ("10.1.1.99", "10.1.1.60")] := by
  intro s t
  have hrun : ((Job.refresh (started default twoMiners).devices 128 true).run boastful).2.2 =
      some (.refreshed twoRenamed) := by decide +kernel
  have hmem : refreshOfTwo ∈ s.jobs := by decide +kernel
  have ht : s.Possible (· = boastful) t := possible_finish boastful _ hmem hrun rfl
  exact ⟨ht, by decide +kernel, by decide +kernel⟩

end System

end MinerFleet
