/-
A miner that is added while a refresh is under way.

* `AddedMeanwhile` — the runs in which a miner is added while a job is under way, and is not taken
  out after that;
* `FleetTurn.dialedAt` — a turn that ends no refresh keeps a miner that is alone at its address,
  unless it takes it out;
* `AddedMeanwhile.dialedAt` — so do all turns while the refresh goes on, since no other can end.

A refresh matches its results with the miners by the address that is dialed, and by nothing else.
`kept_iff_of_added_meanwhile` is what this comes to: the record of the new miner stays if the
refresh has not asked at its address, and else only if the result is that very record. A miner that
is taken out and added again under another name gets the old record back
(`overwritten_after_adding_again`).
-/
import MinerFleet.Proofs.System.Dialed
import MinerFleet.Proofs.System.Passes

namespace MinerFleet.System

variable {σ : Type} [Store σ] {W : Network → Prop}

/-- The turns of a run, and the system that they lead to, where `d` has been added while `o` was
under way, and no miner at its address has been taken out since. -/
inductive AddedMeanwhile (W : Network → Prop) (config : Config) (store : σ) (o : Ongoing)
    (d : Device) : List Turn → System σ → Prop
  | added {ts : List Turn} {s : System σ} {t : Turn} {r : Sent}
      (h : Run W (started config store) ts s) (ho : o ∈ s.jobs) (ht : s.Possible W t)
      (hr : (s.turn t).replies = r :: s.replies) (hd : r.Added (asked (ts ++ [t])) d) :
      AddedMeanwhile W config store o d (ts ++ [t]) (s.turn t)
  | later {ts : List Turn} {s : System σ} {t : Turn} (h : AddedMeanwhile W config store o d ts s)
      (ht : s.Possible W t)
      (hr : ∀ r d', (s.turn t).replies = r :: s.replies → r.Removed (asked (ts ++ [t])) d' →
        d'.connectionAddress ≠ d.connectionAddress) :
      AddedMeanwhile W config store o d (ts ++ [t]) (s.turn t)

theorem AddedMeanwhile.run {config : Config} {store : σ} {o : Ongoing} {d : Device}
    {ts : List Turn} {s : System σ} (h : AddedMeanwhile W config store o d ts s) :
    Run W (started config store) ts s := by
  induction h with
  | added h _ ht _ _ => exact h.turn ht
  | later _ ht _ ih => exact ih.turn ht

/-! ### Jobs that stay -/

/-- No job but `o` has its number, now or later. -/
def Owns (s : System σ) (o : Ongoing) : Prop :=
  o.id < s.launched ∧ ∀ o' ∈ s.jobs, o'.id = o.id → o' = o

omit [Store σ] in
theorem Tracked.owns {cs : List Command} {s : System σ} (h : Tracked cs s) {o : Ongoing}
    (ho : o ∈ s.jobs) : s.Owns o := by
  refine ⟨h.ids o ho, fun o' ho' hid => ?_⟩
  have hm := (perm_filter_id h.nodup ho).mem_iff.mp ho'
  rcases List.mem_cons.mp hm with he | hm
  · exact he
  · have hne := (List.mem_filter.mp hm).2
    simp [hid] at hne

/-- A job with a number from before a turn was under way before it, and the turn has not ended
it. -/
theorem mem_before_of_mem_turn {s : System σ} {t : Turn} {o : Ongoing}
    (ho : o ∈ (s.turn t).jobs) (hlt : o.id < s.launched) : o ∈ (s.before t).jobs := by
  obtain ⟨jobs, hjobs, -, -⟩ := turn_jobs s t
  rw [hjobs] at ho
  rcases List.mem_append.mp ho with ho | ho
  · exact ho
  · have hle := (mem_numbered ho).1
    omega

theorem Owns.turn {s : System σ} {o : Ongoing} (h : s.Owns o) (t : Turn) : (s.turn t).Owns o := by
  obtain ⟨jobs, -, hlaunched, -⟩ := turn_jobs s t
  obtain ⟨hlt, hone⟩ := h
  refine ⟨by omega, fun o' ho' hid => hone o' ?_ hid⟩
  have hm := mem_before_of_mem_turn ho' (hid ▸ hlt)
  exact (before_jobs_sublist s t).subset hm

theorem AddedMeanwhile.owns {config : Config} {store : σ} {o : Ongoing} {d : Device}
    {ts : List Turn} {s : System σ} (h : AddedMeanwhile W config store o d ts s) : s.Owns o := by
  induction h with
  | added h ho ht _ _ => exact (h.tracked.owns ho).turn _
  | later _ _ _ ih => exact ih.turn _

/-! ### Miners that stay -/

theorem mem_of_dialedAt {a : String} {ds : List Device} {d : Device} (h : dialedAt a ds = [d]) :
    d ∈ ds ∧ d.connectionAddress = a := by
  have hm : d ∈ dialedAt a ds := by
    rw [h]
    exact List.mem_singleton_self d
  simpa [dialedAt] using hm

/-- A turn that ends no refresh keeps a miner, unless it takes it out. -/
theorem FleetTurn.dialedAt {cs : List Command} {before after : List Device} {t : Turn}
    {new : List Sent} {a : String} {d : Device} (h : FleetTurn cs before t new after)
    (ht : ∀ id report, t ≠ .finish id (.refreshed report))
    (hkept : ∀ r d', new = [r] → r.Removed cs d' → d'.connectionAddress ≠ a)
    (hd : dialedAt a before = [d]) : dialedAt a after = [d] := by
  obtain ⟨hmem, ha⟩ := mem_of_dialedAt hd
  cases h with
  | kept hp _ => exact dialedAt_eq_singleton_of_perm hp.symm hd
  | removed hr hp =>
    rw [← dialedAt_cons_of_ne (hkept _ _ rfl hr)]
    exact dialedAt_eq_singleton_of_perm hp hd
  | @added _ _ d' _ _ hnot hp =>
    -- Somebody is dialed at this address already, so that it is another one where `d'` is added.
    have hne : d'.connectionAddress ≠ a := by
      rintro rfl
      exact hnot (ha ▸ mem_dialed_of_mem hmem)
    refine dialedAt_eq_singleton_of_perm hp.symm ?_
    rw [dialedAt_cons_of_ne hne, hd]
  | @discovered _ report _ hp =>
    -- Nobody is discovered at an address where somebody is dialed.
    have hnone : MinerFleet.dialedAt a (Registry.newcomers before report.devices) = [] := by
      rw [dialedAt_eq_nil, mem_dialed]
      rintro ⟨d', hd', he⟩
      have hnew := Registry.not_sameIdentity_of_mem_newcomers hmem hd'
      exact Registry.connectionAddress_ne_of_not_sameIdentity hnew (ha.trans he.symm)
    refine dialedAt_eq_singleton_of_perm hp.symm ?_
    rw [dialedAt_append, hd, hnone, List.append_nil]
  | refreshed hp => exact absurd rfl (ht _ _)

/-- Where a miner is added, it is alone at its address. -/
theorem Tracked.dialedAt_of_added {cs : List Command} {s : System σ} (h : Tracked cs s) {t : Turn}
    (ht : s.Possible W t) {r : Sent} {d : Device} (hr : (s.turn t).replies = r :: s.replies)
    (hadd : r.Added (cs ++ asked [t]) d) :
    dialedAt d.connectionAddress (s.turn t).devices = [d] := by
  obtain ⟨new, hnew, hf⟩ := h.fleetTurn ht
  rw [hnew] at hr
  obtain rfl : new = [r] := List.append_cancel_right hr
  generalize (s.turn t).devices = after at hf
  cases hf with
  | kept _ hn => exact absurd hadd.2 (hn r (List.mem_singleton_self _) d)
  | removed hrem _ => exact absurd hadd hrem.not_added
  | added hadd' hd hp =>
    obtain rfl := hadd.eq_of_added hadd'
    refine dialedAt_eq_singleton_of_perm hp.symm ?_
    rw [dialedAt_cons_self, dialedAt_eq_nil.mpr hd]

/-- While the refresh goes on, the miner that was added stays, alone at its address. -/
theorem AddedMeanwhile.dialedAt {config : Config} {store : σ} {o : Ongoing} {d : Device}
    {ts : List Turn} {s : System σ} (h : AddedMeanwhile W config store o d ts s)
    (hrefresh : o.job.isRefresh = true) (ho : o ∈ s.jobs) (hr : s.running = true) :
    dialedAt d.connectionAddress s.devices = [d] := by
  induction h with
  | added h _ ht hreply hadd =>
    rw [asked_append] at hadd
    exact h.tracked.dialedAt_of_added ht hreply hadd
  | @later ts s t h ht hkept ih =>
    have hrunning := running_of_turn hr
    have hbefore := mem_before_of_mem_turn ho h.owns.1
    have hmem := (before_jobs_sublist s t).subset hbefore
    -- No other refresh is under way that could end, and this one goes on.
    have hother : ∀ id report, t ≠ .finish id (.refreshed report) := by
      rintro id report rfl
      obtain ⟨job, hj, hy⟩ := ht
      have he := (h.run.coherent hrunning).eq_of_isPass hmem hj
        (Job.isPass_of_isRefresh hrefresh) (Job.isPass_of_isRefresh hy.fits)
      rw [← he] at hbefore
      simp [before] at hbefore
    obtain ⟨new, hnew, hf⟩ := h.run.tracked.fleetTurn ht
    refine hf.dialedAt hother (fun r d' hone hrem => ?_) (ih hmem hrunning)
    rw [hone] at hnew
    rw [← asked_append] at hrem
    exact hkept r d' hnew hrem

/-! ### The end of the refresh -/

/-- The miners after a refresh has ended. -/
theorem perm_devices_of_refreshed {s : System σ} (hr : s.running = true) (id : Nat)
    (report : Report) : (s.turn (.finish id (.refreshed report))).devices.Perm
      (Registry.replaceFrom report.devices [] s.devices) := by
  have he : s.event? (.finish id (.refreshed report)) = some (.finished (.refreshed report)) :=
    event?_eq_some.mpr ⟨hr, rfl⟩
  have hf := Engine.step_fleet s.engine (.finished (.refreshed report))
  rw [devices, turn_of_event? he, happen_engine, before_engine]
  generalize answers (s.engine.step (.finished (.refreshed report))).2 = replies at hf
  generalize (s.engine.step (.finished (.refreshed report))).1.registry.devices = after at hf ⊢
  cases hf with
  | kept _ _ hne _ => exact absurd rfl (hne report)
  | refreshed hp => exact hp

/-- A miner that is alone at its address gets its result when a refresh ends. -/
theorem dialedAt_of_refreshed {s : System σ} (hr : s.running = true) {a : String} {d : Device}
    (hd : dialedAt a s.devices = [d]) (id : Nat) (report : Report) :
    dialedAt a (s.turn (.finish id (.refreshed report))).devices =
      [Registry.updated report.devices d] :=
  dialedAt_eq_singleton_of_perm (perm_devices_of_refreshed hr id report).symm
    (Registry.dialedAt_replaceFrom hd List.not_mem_nil)

/-- A miner is added while a refresh is under way, and is not taken out before the refresh ends.
Then its record is kept exactly if the refresh has not asked at its address, or has come to the
same record. -/
theorem kept_iff_of_added_meanwhile {config : Config} {store : σ} {id n : Nat}
    {known : List Device} {fetchAsic : Bool} {d : Device} {ts : List Turn} {s : System σ}
    {report : Report}
    (h : AddedMeanwhile W config store ⟨id, .refresh known n fetchAsic⟩ d ts s)
    (hr : s.running = true) (hend : s.Possible W (.finish id (.refreshed report))) :
    dialedAt d.connectionAddress (s.turn (.finish id (.refreshed report))).devices = [d] ↔
      d.connectionAddress ∉ dialed known ∨
        Registry.resultFor report.devices d.connectionAddress = some d := by
  -- The job that ends is the refresh that was under way when the miner was added.
  obtain ⟨job, hj, hy⟩ := hend
  obtain rfl : job = .refresh known n fetchAsic := congrArg Ongoing.job (h.owns.2 _ hj rfl)
  have hafter := dialedAt_of_refreshed hr (h.dialedAt rfl hj hr) id report
  -- The refresh has a result for an address exactly if it has asked there.
  have hasked := (perm_dialed_of_refresh hy).mem_iff (a := d.connectionAddress)
  rw [hafter, List.singleton_inj, Registry.updated, ← hasked]
  cases hres : Registry.resultFor report.devices d.connectionAddress with
  | none => exact iff_of_true rfl (.inl (Registry.resultFor_eq_none.mp hres))
  | some fresh =>
    have hmem : d.connectionAddress ∈ dialed report.devices := by
      refine Decidable.not_not.mp fun hnot => ?_
      rw [Registry.resultFor_eq_none.mpr hnot] at hres
      cases hres
    rw [Option.getD_some, Option.some_inj, or_iff_right (not_not_intro hmem)]

/-! ### Two runs

Of two miners that are being refreshed one is taken out, and another is added: at a new address,
or under another name at the address that has become free. -/

/-- The refresh that is under way from the start, and what it comes to. -/
def refreshOfTwo : Ongoing :=
  ⟨0, .refresh (started default twoMiners).devices 128 true⟩

def twoFound : Report :=
  ⟨[found "10.1.1.50" "10.1.1.50", found "10.1.1.60" "10.1.1.60"], []⟩

def requested (name : String) : System MemoryStore :=
  ((started default twoMiners).turn (.command (.remove "10.1.1.50"))).turn (.command (.add name))

/-- The question to the miner that is to be added has been answered. -/
def answered (name address : String) : Turn :=
  .finish 1 (.probed (.ok (found name address)) 1)

theorem added_of_requested (name address : String)
    (hjobs : (requested name).jobs = [refreshOfTwo, ⟨1, .peer name 1⟩])
    (hrun : ((Job.peer name 1).run lan).2.2 = some (.probed (.ok (found name address)) 1))
    (hreply : ((requested name).turn (answered name address)).replies =
      ⟨1, .ok (.device (found name address)),
        ((requested name).turn (answered name address)).published⟩ :: (requested name).replies) :
    AddedMeanwhile (· = lan) default twoMiners refreshOfTwo (found name address)
      [.command (.remove "10.1.1.50"), .command (.add name), answered name address]
      ((requested name).turn (answered name address)) := by
  have hremoved : Run (· = lan) (started default twoMiners)
      ([] ++ [.command (.remove "10.1.1.50")]) _ := .turn .refl trivial
  have hrequested : Run (· = lan) (started default twoMiners)
      ([.command (.remove "10.1.1.50")] ++ [.command (.add name)]) (requested name) :=
    .turn hremoved trivial
  have hpeer : (requested name).Possible (· = lan) (answered name address) :=
    possible_finish lan _ (by rw [hjobs]; exact List.mem_cons_of_mem _ List.mem_cons_self) hrun rfl
  exact .added hrequested (by rw [hjobs]; simp) hpeer hreply ⟨⟨name, rfl⟩, rfl⟩

theorem refreshed_of_requested {s : System MemoryStore} (h : refreshOfTwo ∈ s.jobs) :
    s.Possible (· = lan) (.finish 0 (.refreshed twoFound)) := by
  have hrun : ((Job.refresh (started default twoMiners).devices 128 true).run lan).2.2 =
      some (.refreshed twoFound) := by decide +kernel
  exact possible_finish lan _ h hrun rfl

/-- At a new address the miner is kept. -/
theorem kept_at_new_address :
    let s := (requested "10.1.1.70").turn (answered "10.1.1.70" "10.1.1.70")
    AddedMeanwhile (· = lan) default twoMiners refreshOfTwo (found "10.1.1.70" "10.1.1.70")
      [.command (.remove "10.1.1.50"), .command (.add "10.1.1.70"),
        answered "10.1.1.70" "10.1.1.70"] s ∧
    s.running = true ∧ s.Possible (· = lan) (.finish 0 (.refreshed twoFound)) ∧
    dialedAt "10.1.1.70" (s.turn (.finish 0 (.refreshed twoFound))).devices =
      [found "10.1.1.70" "10.1.1.70"] := by
  intro s
  have h := added_of_requested "10.1.1.70" "10.1.1.70"
    (by decide +kernel) (by decide +kernel) (by decide +kernel)
  have hr : s.running = true := by decide +kernel
  have hend := refreshed_of_requested (s := s) (by decide +kernel)
  exact ⟨h, hr, hend, (kept_iff_of_added_meanwhile h hr hend).mpr (.inl (by decide +kernel))⟩

/-- At the address that has become free, the record of the miner that was taken out comes back in
place of the new one. -/
theorem overwritten_after_adding_again :
    let s := (requested "gamma.local").turn (answered "gamma.local" "10.1.1.50")
    AddedMeanwhile (· = lan) default twoMiners refreshOfTwo (found "gamma.local" "10.1.1.50")
      [.command (.remove "10.1.1.50"), .command (.add "gamma.local"),
        answered "gamma.local" "10.1.1.50"] s ∧
    s.running = true ∧ s.Possible (· = lan) (.finish 0 (.refreshed twoFound)) ∧
    dialedAt "10.1.1.50" (s.turn (.finish 0 (.refreshed twoFound))).devices ≠
      [found "gamma.local" "10.1.1.50"] := by
  intro s
  have h := added_of_requested "gamma.local" "10.1.1.50"
    (by decide +kernel) (by decide +kernel) (by decide +kernel)
  have hend := refreshed_of_requested (s := s) (by decide +kernel)
  exact ⟨h, by decide +kernel, hend, by decide +kernel⟩

end MinerFleet.System
