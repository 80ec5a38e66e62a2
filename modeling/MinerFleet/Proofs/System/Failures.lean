/-
How often a miner has failed in a row.

* `System.passes` — the refreshes that end in a row of turns, with what they have found;
* `failedSince` — how many of them have missed the miner at an address since it was reached last;
* `System.StaysDialed` — somebody is dialed at an address all the time;
* `System.CountsOn` — a refresh that is under way goes on counting from a record.

A refresh counts on from the record that it has started with. So a count is that of the refreshes
that have failed in a row, whatever else happens, exactly if no refresh is under way that has
started with another record at the same address (`failures_counted_iff`). There is such a refresh
where a miner has been taken out and added again meanwhile (`counted_on_from_another_record`).
-/
import Mathlib.Data.List.DropRight
import MinerFleet.Proofs.Probe.Results
import MinerFleet.Proofs.System.Overlap
import MinerFleet.Proofs.System.Readers

namespace MinerFleet

/-! ### Refreshes that have ended -/

/-- What a refresh has found that ends with an event. -/
def Event.report? : Event → Option Report
  | .finished (.refreshed report) => some report
  | _ => none

/-- How often in a row the miner at an address was missed by refreshes, of which the latest is the
last; `n` is how often it had been before. -/
def failedSince (a : String) (n : Nat) (passes : List Report) : Nat :=
  (passes.rtakeWhile fun r => !r.reaches a).countP (·.misses a) +
    if passes.any (·.reaches a) then 0 else n

/-- One more refresh adds one, or nothing, or begins anew. -/
theorem failedSince_append (a : String) (n : Nat) (passes : List Report) (report : Report) :
    failedSince a n (passes ++ [report]) =
      if report.reaches a then 0 else failedSince a n passes + (report.misses a).toNat := by
  rw [failedSince, failedSince, List.any_append]
  cases hr : report.reaches a with
  | true =>
    rw [List.rtakeWhile_concat_neg _ _ _ (by simp [hr])]
    simp [hr]
  | false =>
    rw [List.rtakeWhile_concat_pos _ _ _ (by simp [hr]), List.countP_append]
    cases hm : report.misses a <;> simp [hr, hm, Nat.add_right_comm]

/-- Whoever is stale is shown with something that is wrong. -/
theorem Device.notice_isSome_of_isStale {d : Device} {staleAfter : UInt32}
    (h : d.isStale staleAfter = true) : (d.notice staleAfter).isSome = true := by
  simp only [notice, h, if_true]
  split_ifs <;> rfl

theorem Device.isStale_iff {d : Device} {staleAfter : UInt32} :
    d.isStale staleAfter = true ↔
      0 < staleAfter.toNat ∧ staleAfter.toNat ≤ d.failedPolls.toNat := by
  rw [isStale, Bool.and_eq_true, decide_eq_true_iff, decide_eq_true_iff]
  exact and_congr UInt32.lt_iff_toNat_lt UInt32.le_iff_toNat_le

namespace System

variable {σ : Type} [Store σ] {W : Network → Prop} {config : Config} {store : σ}

omit [Store σ] in
/-- What a refresh has found that ends with a turn. -/
def applied (s : System σ) (t : Turn) : Option Report :=
  (s.event? t).bind Event.report?

omit [Store σ] in
theorem applied_eq_some {s : System σ} {t : Turn} {report : Report} :
    s.applied t = some report ↔
      s.running = true ∧ ∃ id, t = .finish id (.refreshed report) := by
  rw [applied, event?]
  cases s.running with
  | false => simp
  | true =>
    cases t with
    | finish id result => cases result <;> simp [Turn.event?, Event.report?]
    | _ => simp [Turn.event?, Event.report?]

/-- The refreshes that end with some turns. -/
def passes (s : System σ) (ts : List Turn) : List Report :=
  (s.moments ts).filterMap fun m => m.1.applied m.2

theorem Run.passes_turn {s s' : System σ} {ts : List Turn} (h : Run W s ts s') (t : Turn) :
    s.passes (ts ++ [t]) = s.passes ts ++ (s'.applied t).toList := by
  rw [passes, h.moments_turn t, List.filterMap_append, ← passes]
  cases hr : s'.applied t <;> simp [hr]

/-- After each of some turns somebody is dialed at an address. Taking a miner out and adding it
again takes two turns. -/
def StaysDialed (s : System σ) (a : String) (ts : List Turn) : Prop :=
  ∀ m ∈ s.moments ts, a ∈ dialed (m.1.turn m.2).devices

theorem Run.staysDialed_turn {s s' : System σ} {ts : List Turn} (h : Run W s ts s') {t : Turn}
    {a : String} (hs : s.StaysDialed a (ts ++ [t])) :
    s.StaysDialed a ts ∧ a ∈ dialed (s'.turn t).devices := by
  rw [StaysDialed, h.moments_turn t] at hs
  exact ⟨fun m hm => hs m (List.mem_append_left _ hm),
    hs (s', t) (List.mem_append_right _ (List.mem_singleton_self _))⟩

/-! ### Turns -/

/-- A refresh that is under way goes on counting from a record: should it miss the miner at the
address, its result there has one failure more. -/
def CountsOn (W : Network → Prop) (s : System σ) (a : String) (d : Device) : Prop :=
  s.running = true → ∀ id report, s.Possible W (.finish id (.refreshed report)) →
    report.misses a = true → ∀ d', Registry.resultFor report.devices a = some d' →
      d'.failedPolls = Device.countFailure d.failedPolls

omit [Store σ] in
/-- A refresh that has started with a record counts on from it. -/
theorem countsOn_of_known {s : System σ} {a : String} {d : Device}
    (h : ∀ o ∈ s.jobs, ∀ known n fetchAsic, o.job = .refresh known n fetchAsic →
      dialedAt a known = [d] ∨ a ∉ dialed known) : s.CountsOn W a d := by
  rintro - id report ⟨job, hj, hy⟩ hm d' hd'
  obtain ⟨known, n, fetchAsic, rfl⟩ := hy.fits.eq_refresh
  rcases h _ hj known n fetchAsic rfl with hk | hk
  · exact countFailure_of_misses hy hk hm hd'
  · exact absurd ((perm_dialed_of_refresh hy).mem_iff.mp (mem_dialed_of_misses hy hm)) hk

omit [Store σ] in
/-- What becomes of a count when a refresh ends that counts on. -/
theorem failedPolls_updated {s : System σ} {a : String} {d : Device} (hd : d.connectionAddress = a)
    (hr : s.running = true) (hc : s.CountsOn W a d) {id : Nat} {report : Report}
    (ht : s.Possible W (.finish id (.refreshed report))) :
    (Registry.updated report.devices d).failedPolls =
      if report.reaches a then 0
      else if report.misses a then Device.countFailure d.failedPolls else d.failedPolls := by
  obtain ⟨job, hj, hy⟩ := ht
  have hcount := hc hr id report ⟨job, hj, hy⟩
  obtain ⟨known, n, fetchAsic, rfl⟩ := hy.fits.eq_refresh
  rw [Registry.updated, hd, Report.reaches]
  cases hres : Registry.resultFor report.devices a with
  | none =>
    -- There is a result wherever the refresh misses somebody.
    have hnot := Registry.resultFor_eq_none.mp hres
    have hm : report.misses a = false := by
      rw [← Bool.not_eq_true]
      exact fun hm => hnot (mem_dialed_of_misses hy hm)
    simp [hm, hnot]
  | some d' =>
    have hmem : a ∈ dialed report.devices := by
      refine Decidable.not_not.mp fun hnot => ?_
      rw [Registry.resultFor_eq_none.mpr hnot] at hres
      cases hres
    cases hm : report.misses a with
    | true => simpa using hcount hm d' hres
    | false => simpa [hmem] using failedPolls_of_not_misses hy hm hres

/-- A turn that ends no refresh keeps a miner that is alone at its address, if somebody is dialed
there after it. -/
theorem FleetTurn.dialedAt_of_mem {cs : List Command} {before after : List Device} {t : Turn}
    {new : List Sent} {a : String} {d : Device} (h : FleetTurn cs before t new after)
    (ht : ∀ id report, t ≠ .finish id (.refreshed report)) (ha : a ∈ dialed after)
    (hd : MinerFleet.dialedAt a before = [d]) : MinerFleet.dialedAt a after = [d] := by
  refine h.dialedAt ht (fun r d' hone hr hconn => ?_) hd
  subst hone hconn
  cases h with
  | kept _ hn => exact hn r (List.mem_singleton_self r) d' hr.2
  | added hadd _ _ => exact hr.not_added hadd
  | removed hr' hp =>
    -- Whoever is taken out was alone.
    cases hr'.2.symm.trans hr.2
    have hnone := perm_dialedAt d'.connectionAddress hp
    rw [hd, dialedAt_cons_self] at hnone
    have hlen := hnone.length_eq
    rw [List.length_cons, List.length_cons, Nat.add_right_cancel_iff] at hlen
    exact dialedAt_eq_nil.mp (List.length_eq_zero_iff.mp hlen.symm) ha

/-- When a refresh has ended, none is under way that counts on from anything. -/
theorem Coherent.countsOn_of_refreshed {s : System σ} (h : Coherent s) {id : Nat} {report : Report}
    (ht : s.Possible W (.finish id (.refreshed report))) (a : String) (d : Device) :
    (s.turn (.finish id (.refreshed report))).CountsOn W a d := by
  obtain ⟨job, hj, hy⟩ := ht
  refine countsOn_of_known fun o ho known n fetchAsic hjob => ?_
  have hends := (finish_jobs s id (.refreshed report)).1
  rw [System.turn, hends] at ho
  obtain ⟨ho, hid⟩ := List.mem_filter.mp ho
  -- The refresh that has ended was the only pass.
  have hpass : o.job.isRefresh = true := by
    rw [hjob]
    rfl
  have he := h.eq_of_isPass hj ho (Job.isPass_of_isRefresh hy.fits)
    (Job.isPass_of_isRefresh hpass)
  simp [he] at hid

/-- A turn that ends no refresh goes on counting from the same record: a refresh that begins with
it starts with this record. -/
theorem CountsOn.turn {s : System σ} {a : String} {d : Device} (h : s.CountsOn W a d) {t : Turn}
    (hr : s.running = true) (hd : dialedAt a s.devices = [d]) : (s.turn t).CountsOn W a d := by
  rintro - id report ⟨job, hj, hy⟩ hm d' hd'
  rcases mem_jobs_turn hj with hj | ⟨event, -, hj⟩
  · exact h hr id report ⟨job, (before_jobs_sublist s t).subset hj, hy⟩ hm d' hd'
  · obtain ⟨known, n, fetchAsic, rfl⟩ := hy.fits.eq_refresh
    rw [← known_eq_devices hj rfl] at hd
    exact countFailure_of_misses hy hd hm hd'

/-- What a turn does to the only miner at an address, if somebody is dialed there after it: a
refresh that ends gives it its result, and nothing else changes its record. -/
theorem Run.dialedAt_turn {ts : List Turn} {s : System σ} (h : Run W (started config store) ts s)
    {t : Turn} (ht : s.Possible W t) {a : String} {d : Device} (hd : dialedAt a s.devices = [d])
    (hc : s.CountsOn W a d) (ha : a ∈ dialed (s.turn t).devices) :
    ∃ d', dialedAt a (s.turn t).devices = [d'] ∧ (s.turn t).CountsOn W a d' ∧
      d'.failedPolls = ((s.applied t).elim d.failedPolls fun report =>
        if report.reaches a then 0
        else if report.misses a then Device.countFailure d.failedPolls else d.failedPolls) := by
  cases happlied : s.applied t with
  | some report =>
    obtain ⟨hr, id, rfl⟩ := applied_eq_some.mp happlied
    refine ⟨_, dialedAt_of_refreshed hr hd id report,
      (h.coherent hr).countsOn_of_refreshed ht a _, ?_⟩
    exact failedPolls_updated (mem_of_dialedAt hd).2 hr hc ht
  | none =>
    cases hr : s.running with
    | true =>
      have hother : ∀ id report, t ≠ .finish id (.refreshed report) := by
        intro id report he
        rw [applied_eq_some.mpr ⟨hr, id, he⟩] at happlied
        cases happlied
      obtain ⟨new, -, hf⟩ := h.tracked.fleetTurn ht
      exact ⟨d, hf.dialedAt_of_mem hother ha hd, hc.turn hr hd, rfl⟩
    | false =>
      -- Nothing happens to the miners any more.
      rcases turn_cases s t with ⟨event, he, -⟩ | ⟨-, hrests⟩
      · exact absurd (hr.symm.trans (event?_eq_some.mp he).1) Bool.false_ne_true
      · refine ⟨d, ?_, fun hr' => absurd (hrests.running.symm.trans hr') Bool.false_ne_true, rfl⟩
        rw [devices, hrests.engine]
        exact hd

/-! ### Runs -/

/-- In every run from where a miner is alone at its address, the refreshes that have missed it in a
row are counted, as far as the number goes. -/
theorem Run.failures {ts : List Turn} {s : System σ} (h : Run W (started config store) ts s)
    {a : String} {d : Device} (hd : dialedAt a s.devices = [d]) (hc : s.CountsOn W a d)
    {us : List Turn} {s' : System σ} (hu : Run W s us s') (hs : s.StaysDialed a us) :
    ∃ d', dialedAt a s'.devices = [d'] ∧ s'.CountsOn W a d' ∧
      d'.failedPolls.toNat =
        min (failedSince a d.failedPolls.toNat (s.passes us)) (UInt32.size - 1) := by
  induction hu with
  | refl =>
    have hlt := d.failedPolls.toNat_lt_size
    have hnone : failedSince a d.failedPolls.toNat (s.passes []) = d.failedPolls.toNat :=
      Nat.zero_add _
    exact ⟨d, hd, hc, by rw [hnone]; omega⟩
  | @turn us s' t hu ht ih =>
    obtain ⟨hs, ha⟩ := hu.staysDialed_turn hs
    obtain ⟨d₁, hd₁, hc₁, hcount₁⟩ := ih hs
    obtain ⟨d₂, hd₂, hc₂, hcount₂⟩ := (h.trans hu).dialedAt_turn ht hd₁ hc₁ ha
    refine ⟨d₂, hd₂, hc₂, ?_⟩
    rw [hu.passes_turn t, hcount₂]
    cases s'.applied t with
    | none =>
      rw [Option.toList_none, List.append_nil]
      exact hcount₁
    | some report =>
      rw [Option.toList_some, failedSince_append, Option.elim_some]
      cases report.reaches a with
      | true => rfl
      | false =>
        cases report.misses a with
        | true =>
          simp only [Bool.false_eq_true, if_false, if_true, Device.toNat_countFailure, hcount₁,
            Bool.toNat_true]
          omega
        | false => exact hcount₁

/-- The only miner at an address has been missed `n` times in a row, and what is published says
so. -/
def Counted (s : System σ) (staleAfter : UInt32) (a : String) (n : Nat) : Prop :=
  ∃ d, dialedAt a s.devices = [d] ∧ d.failedPolls.toNat = min n (UInt32.size - 1) ∧
    ∃ m ∈ s.published.members, m.device = d ∧
      (m.stale = true ↔ 0 < staleAfter.toNat ∧ staleAfter.toNat ≤ n) ∧
      (m.stale = true → m.notice.isSome = true)

omit [Store σ] in
/-- What is published of a record says how often it has failed. -/
theorem counted_of_published {s : System σ} (hp : s.published = s.engine.snapshot) {a : String}
    {d : Device} (hd : dialedAt a s.devices = [d]) {n : Nat}
    (hn : d.failedPolls.toNat = min n (UInt32.size - 1)) :
    s.Counted s.engine.config.staleAfter a n := by
  have hlt := s.engine.config.staleAfter.toNat_lt_size
  refine ⟨d, hd, hn, Member.ofDevice s.engine.config.staleAfter d, ?_, rfl, ?_,
    Device.notice_isSome_of_isStale⟩
  · rw [hp]
    exact List.mem_map_of_mem (mem_of_dialedAt hd).1
  · refine Device.isStale_iff.trans (and_congr_right fun _ => ?_)
    rw [hn]
    omega

/-- A miner is alone at its address, at any point of a run. From there on, however turns follow
each other while somebody stays dialed there, its failures are those of the refreshes that have
missed it since it was reached last, together with those that it had where it has not been
reached; and it is shown as stale, with something that is wrong, from the limit on and until it is
reached. This is so exactly if a refresh that is under way at that point counts on from this
record; and it does so if it has started with it, or without any record at the address. -/
theorem failures_counted_iff {ts : List Turn} {s : System σ}
    (h : Run W (started config store) ts s) {a : String} {d : Device}
    (hd : dialedAt a s.devices = [d]) :
    ((∀ us s', Run W s us s' → s.StaysDialed a us →
        s'.Counted config.staleAfter a (failedSince a d.failedPolls.toNat (s.passes us))) ↔
      s.CountsOn W a d) ∧
    ((∀ o ∈ s.jobs, ∀ known n fetchAsic, o.job = .refresh known n fetchAsic →
        dialedAt a known = [d] ∨ a ∉ dialed known) →
      s.CountsOn W a d) := by
  refine ⟨⟨fun hall => ?_, fun hc us s' hu hs => ?_⟩, countsOn_of_known⟩
  · intro hr id report ht hm d' hd'
    -- The refresh ends at once.
    have happlied : s.applied (.finish id (.refreshed report)) = some report :=
      applied_eq_some.mpr ⟨hr, id, rfl⟩
    have hafter := dialedAt_of_refreshed hr hd id report
    have hstays : s.StaysDialed a [.finish id (.refreshed report)] :=
      List.forall_mem_singleton.mpr (mem_dialed.mpr ⟨_, mem_of_dialedAt hafter⟩)
    obtain ⟨d₁, hd₁, hcount, -⟩ := hall _ _ (.turn .refl ht) hstays
    have hresult : d₁ = d' := by
      rw [hafter, Registry.updated, (mem_of_dialedAt hd).2, hd', Option.getD_some] at hd₁
      exact (List.singleton_inj.mp hd₁).symm
    have hsince : failedSince a d.failedPolls.toNat
        (s.passes ([] ++ [.finish id (.refreshed report)])) = d.failedPolls.toNat + 1 := by
      rw [Run.passes_turn (W := W) .refl, happlied, Option.toList_some, failedSince_append,
        Report.reaches, hm]
      exact congrArg (· + 1) (Nat.zero_add _)
    rw [hsince, hresult] at hcount
    exact UInt32.toNat_inj.mp (hcount.trans (Device.toNat_countFailure _).symm)
  · obtain ⟨d', hd', -, hn⟩ := h.failures hd hc hu hs
    have hrun := h.trans hu
    rw [← hrun.consistent.1]
    exact counted_of_published hrun.tracked.published hd' hn

/-! ### Two runs -/

/-- What becomes of two miners when a refresh misses both. -/
def twoMissed : Report :=
  ⟨twoFound.devices.map Device.failed, [("10.1.1.50", .timeout), ("10.1.1.60", .timeout)]⟩

/-- Two miners that were reached are missed by the next refresh: with a limit of one, they are
shown as stale. -/
theorem counted_once_of_two :
    let config : Config := { staleAfter := 1 }
    let s := (started config twoMiners).turn (.finish 0 (.refreshed twoFound))
    let s' := (s.turn (.command .refresh)).turn (.finish 1 (.refreshed twoMissed))
    Run (fun _ => True) (started config twoMiners) [.finish 0 (.refreshed twoFound)] s ∧
      dialedAt "10.1.1.50" s.devices = [found "10.1.1.50" "10.1.1.50"] ∧
      s'.Counted 1 "10.1.1.50" 1 := by
  intro config s s'
  have hfound : (started config twoMiners).Possible (fun _ => True)
      (.finish 0 (.refreshed twoFound)) :=
    possible_finish lan (.refresh (started config twoMiners).devices 128 true)
      (by decide +kernel) (by decide +kernel) trivial
  have h : Run (fun _ => True) (started config twoMiners)
      ([] ++ [.finish 0 (.refreshed twoFound)]) s := .turn .refl hfound
  have hd : dialedAt "10.1.1.50" s.devices = [found "10.1.1.50" "10.1.1.50"] := by decide +kernel
  have hbegun : Run (fun _ => True) s ([] ++ [.command .refresh]) (s.turn (.command .refresh)) :=
    .turn .refl trivial
  have hmissed : (s.turn (.command .refresh)).Possible (fun _ => True)
      (.finish 1 (.refreshed twoMissed)) :=
    possible_finish silent (.refresh s.devices 128 true)
      (by decide +kernel) (by decide +kernel) trivial
  have hstays : s.StaysDialed "10.1.1.50" [.command .refresh, .finish 1 (.refreshed twoMissed)] :=
    List.forall_mem_cons.mpr ⟨by decide +kernel, List.forall_mem_singleton.mpr (by decide +kernel)⟩
  obtain ⟨hiff, hknown⟩ := failures_counted_iff h hd
  -- No refresh is under way where the other one has just ended.
  have hjobs : s.jobs = [] := by decide +kernel
  have hc := hknown fun o ho => absurd (hjobs ▸ ho) List.not_mem_nil
  have hcounted := hiff.mpr hc [.command .refresh, .finish 1 (.refreshed twoMissed)] s'
    (.turn hbegun hmissed) hstays
  have hsince : failedSince "10.1.1.50" (found "10.1.1.50" "10.1.1.50").failedPolls.toNat
      (s.passes [.command .refresh, .finish 1 (.refreshed twoMissed)]) = 1 := by decide +kernel
  rw [hsince] at hcounted
  exact ⟨h, hd, hcounted⟩

/-- A store with one miner, which has failed twice. -/
def oneMissedTwice : MemoryStore :=
  KeyMap.ofList [(Store.devicesKey, .array
    [.object [("address", .string "10.1.1.50"), ("connectionAddress", .string "10.1.1.50"),
      ("failedPolls", .ofNat 2)]])]

/-- The miner is taken out and added again while it is being refreshed. -/
def addedAgain : System MemoryStore :=
  (((started default oneMissedTwice).turn (.command (.remove "10.1.1.50"))).turn
    (.command (.add "10.1.1.50"))).turn (answered "10.1.1.50" "10.1.1.50")

/-- The refresh misses it. -/
def oneMissed : Report :=
  ⟨(started default oneMissedTwice).devices.map Device.failed, [("10.1.1.50", .timeout)]⟩

/-- A miner that has just been added has not failed. It is missed once by the refresh that has
started with the record that was there before, and has failed three times then. -/
theorem counted_on_from_another_record :
    let late := Turn.finish 0 (.refreshed oneMissed)
    Run (fun _ => True) (started default oneMissedTwice)
        [.command (.remove "10.1.1.50"), .command (.add "10.1.1.50"),
          answered "10.1.1.50" "10.1.1.50"] addedAgain ∧
      dialedAt "10.1.1.50" addedAgain.devices = [found "10.1.1.50" "10.1.1.50"] ∧
      Run (fun _ => True) addedAgain [late] (addedAgain.turn late) ∧
      addedAgain.StaysDialed "10.1.1.50" [late] ∧
      failedSince "10.1.1.50" (found "10.1.1.50" "10.1.1.50").failedPolls.toNat
        (addedAgain.passes [late]) = 1 ∧
      (dialedAt "10.1.1.50" (addedAgain.turn late).devices).map (·.failedPolls) = [3] ∧
      ¬ (addedAgain.turn late).Counted 3 "10.1.1.50" 1 := by
  intro late
  have hremoved : Run (fun _ => True) (started default oneMissedTwice)
      ([] ++ [.command (.remove "10.1.1.50")]) _ := .turn .refl trivial
  have hasked : Run (fun _ => True) (started default oneMissedTwice)
      ([.command (.remove "10.1.1.50")] ++ [.command (.add "10.1.1.50")]) _ :=
    .turn hremoved trivial
  have h : Run (fun _ => True) (started default oneMissedTwice)
      ([.command (.remove "10.1.1.50"), .command (.add "10.1.1.50")] ++
        [answered "10.1.1.50" "10.1.1.50"]) addedAgain :=
    .turn hasked (possible_finish lan (.peer "10.1.1.50" 1)
      (by decide +kernel) (by decide +kernel) trivial)
  have hlate : addedAgain.Possible (fun _ => True) late :=
    possible_finish silent (.refresh (started default oneMissedTwice).devices 128 true)
      (by decide +kernel) (by decide +kernel) trivial
  have hpolls : (dialedAt "10.1.1.50" (addedAgain.turn late).devices).map (·.failedPolls) =
      [3] := by decide +kernel
  refine ⟨h, by decide +kernel, .turn .refl hlate,
    List.forall_mem_singleton.mpr (by decide +kernel), by decide +kernel, hpolls, ?_⟩
  rintro ⟨d, hd, hn, -⟩
  rw [hd, List.map_singleton, List.singleton_inj] at hpolls
  rw [hpolls] at hn
  exact absurd hn (by decide)

end System

end MinerFleet
