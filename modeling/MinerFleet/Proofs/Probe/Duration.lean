/-
How long a pass can take.

* `Network.probe_le` — a miner is asked for so long and no longer, whether it answers or not;
* `Pool.Punctual` — how a pool works whose work takes so long at most: when each target is taken up
  at the latest, and when all is over.

A pool has room for `limit` targets. If the target in place `i` were taken up later than after
`i / limit` times the longest work, then the pool would be full at that time. But by induction all
targets up to `limit` places before it would be over then, and those in between are too few
(`Orderly.begins_by`). So a pass ends when the last of its rounds is over, whatever its miners do
(`pass_ends_in_time`).
-/
import Mathlib.Algebra.Order.Floor.Div
import MinerFleet.Proofs.Probe.Pass

namespace MinerFleet

/-! ### One miner -/

theorem Reply.within_le {α : Type} (limit : Nat) (r : Reply α) : (r.within limit).1 ≤ limit := by
  cases r with
  | never => exact Nat.le_refl limit
  | after delay result =>
    rw [within]
    split
    · assumption
    · exact Nat.le_refl limit

theorem Reply.openFor_le {α : Type} (limit : Nat) (r : Reply α) : r.openFor limit ≤ limit := by
  cases r with
  | never => exact Nat.le_refl limit
  | after delay result => exact Nat.min_le_right delay limit

namespace Network

theorem probe_le (net : Network) (fetchAsic : Bool) (target : Target) :
    (net.probe fetchAsic target).1 ≤ probeLimit := by
  have h := (net.exchange target.connectionAddress fetchAsic).within_le probeLimit
  rw [probe]
  split
  · next he => rwa [he] at h
  · next he => rwa [he] at h

/-- No request of a probe stays open when the probe is over. -/
theorem ends_of_mem_probeCalls {net : Network} {now : Nat} {fetchAsic : Bool} {target : Target}
    {c : Call} (h : c ∈ net.probeCalls now fetchAsic target) :
    c.begins = now ∧ c.ends ≤ now + (net.probe fetchAsic target).1 := by
  rw [probeCalls, List.mem_cons] at h
  rcases h with rfl | h
  · exact ⟨rfl, Nat.add_le_add_left (Reply.openFor_le _ _) now⟩
  · cases fetchAsic with
    | false => cases h
    | true =>
      obtain rfl := List.mem_singleton.mp h
      exact ⟨rfl, Nat.add_le_add_left (Reply.openFor_le _ _) now⟩

end Network

/-! ### Pools -/

namespace Pool

variable {τ ο : Type} {work : τ → Nat × ο} {begun : List (Nat × τ)}

/-- Work that is not going on at a moment, as it is over or not taken up yet. -/
theorem workedOnAt_eq_zero {now : Nat} (h : ∀ b ∈ begun, b.1 + (work b.2).1 ≤ now ∨ now < b.1) :
    workedOnAt work begun now = 0 := by
  refine List.countP_eq_zero.mpr fun b hb hworked => ?_
  have := h b hb
  rw [decide_eq_true_eq] at hworked
  omega

/-- If all before one place is over and nothing from another one on is taken up, there is only what
stands between. -/
theorem workedOnAt_le_between {now i j : Nat} (hji : j ≤ i)
    (hover : ∀ b ∈ begun.take j, b.1 + (work b.2).1 ≤ now)
    (hwaiting : ∀ b ∈ begun.drop i, now < b.1) :
    workedOnAt work begun now ≤ i - j := by
  have hfront : begun.take j = (begun.take i).take j := by
    rw [List.take_take, Nat.min_eq_left hji]
  have hsplit : begun = begun.take j ++ ((begun.take i).drop j ++ begun.drop i) := by
    rw [← List.append_assoc, hfront, List.take_append_drop, List.take_append_drop]
  have hbetween : workedOnAt work ((begun.take i).drop j) now ≤ i - j := by
    refine Nat.le_trans List.countP_le_length ?_
    rw [List.length_drop, List.length_take]
    omega
  rw [hsplit, workedOnAt_append, workedOnAt_append,
    workedOnAt_eq_zero fun b hb => .inl (hover b hb),
    workedOnAt_eq_zero fun b hb => .inr (hwaiting b hb)]
  omega

variable {limit most now ended : Nat} {ts : List τ} {settled : List (τ × ο)}

theorem Orderly.begins_mono (h : Orderly limit ts work now ended begun settled) {i j : Nat}
    (hj : j < begun.length) (hij : i ≤ j) : begun[i].1 ≤ begun[j].1 := by
  rcases Nat.eq_or_lt_of_le hij with rfl | hlt
  · exact Nat.le_refl _
  · have hsorted := List.pairwise_map.mp (List.pairwise_cons.mp h.sorted).2
    exact List.pairwise_iff_getElem.mp hsorted i j (by omega) hj hlt

/-- A target is taken up as soon as all rounds are over that those before it fill. -/
theorem Orderly.begins_by (h : Orderly limit ts work now ended begun settled) (hpos : 0 < limit)
    (hmost : ∀ t, (work t).1 ≤ most) {i : Nat} (hi : i < begun.length) :
    begun[i].1 ≤ now + i / limit * most := by
  induction i using Nat.strongRecOn with
  | ind i ih =>
    by_contra hlate
    -- The pool is full while the target waits.
    have hfull := h.full begun[i] (List.getElem_mem hi) (now + i / limit * most) (by omega)
      (by omega)
    -- A round before, all those were taken up that stand a round before it: they are over.
    have hover : ∀ b ∈ begun.take (i + 1 - limit),
        b.1 + (work b.2).1 ≤ now + i / limit * most := by
      intro b hb
      obtain ⟨j, hj, rfl⟩ := List.mem_take_iff_getElem.mp hb
      have hbegun := ih j (by omega) (by omega)
      have hround : (j / limit + 1) * most ≤ i / limit * most := by
        refine Nat.mul_le_mul_right most ?_
        rw [← Nat.add_div_right j hpos]
        exact Nat.div_le_div_right (by omega)
      have hwork := hmost begun[j].2
      rw [Nat.add_mul, Nat.one_mul] at hround
      omega
    have hwaiting : ∀ b ∈ begun.drop i, now + i / limit * most < b.1 := by
      intro b hb
      obtain ⟨j, hj, rfl⟩ := List.mem_drop_iff_getElem.mp hb
      exact Nat.lt_of_lt_of_le (Nat.not_le.mp hlate) (h.begins_mono (by omega) (by omega))
    -- What is left are fewer than there is room for.
    have hbetween := workedOnAt_le_between (by omega) hover hwaiting
    omega

/-- How a pool works whose work takes `most` at most. -/
structure Punctual (most limit : Nat) (ts : List τ) (work : τ → Nat × ο) (now ended : Nat)
    (begun : List (Nat × τ)) (settled : List (τ × ο)) : Prop
    extends Orderly limit ts work now ended begun settled where
  /-- Whatever is taken up takes up its room for so long and no longer. -/
  lasts : ∀ b ∈ begun, (work b.2).1 ≤ most
  /-- Each target is taken up when the rounds are over that those before it can fill. -/
  begins : ∀ i b, begun[i]? = some b → b.1 ≤ now + i / limit * most
  /-- It is over when as many rounds are over as all targets fill, the last one in part. -/
  ends : ended ≤ now + ts.length ⌈/⌉ limit * most

/-- An orderly pool is punctual if its work is. -/
theorem Orderly.punctual (h : Orderly limit ts work now ended begun settled) (hpos : 0 < limit)
    (hmost : ∀ t, (work t).1 ≤ most) : Punctual most limit ts work now ended begun settled where
  toOrderly := h
  lasts b _ := hmost b.2
  begins i b hb := by
    obtain ⟨hi, rfl⟩ := List.getElem?_eq_some_iff.mp hb
    exact h.begins_by hpos hmost hi
  ends := by
    rcases h.noLater with hended | ⟨b, hb, hended⟩
    · omega
    · obtain ⟨i, hi, rfl⟩ := List.mem_iff_getElem.mp hb
      have hbegun := h.begins_by hpos hmost hi
      have hwork := hmost begun[i].2
      have hlength : begun.length = ts.length := by rw [← h.inOrder, List.length_map]
      have hrounds : (i / limit + 1) * most ≤ ts.length ⌈/⌉ limit * most := by
        refine Nat.mul_le_mul_right most ?_
        rw [← Nat.add_div_right i hpos, Nat.ceilDiv_eq_add_pred_div]
        exact Nat.div_le_div_right (by omega)
      rw [Nat.add_mul, Nat.one_mul] at hrounds
      omega

end Pool

/-! ### Passes -/

section

variable {τ : Type} (target : τ → Target) (net : τ → Network) (fetchAsic : Bool)
  (handler : Target → ProbeFailure → Option Device) (concurrency : Nat)

/-- A pass is punctual on any network, which may be another one for each target. -/
theorem punctual_scan (ts : List τ) (now : Nat) :
    let work t := (net t).probe fetchAsic (target t)
    let result := scan target work handler concurrency ts now
    ∃ settled, Pool.Punctual probeLimit (max concurrency 1) ts work now result.1 result.2.1
      settled := by
  intro work result
  obtain ⟨settled, horderly⟩ := (complete_scan target work handler concurrency ts now).orderly
  exact ⟨settled, horderly.punctual (Nat.le_max_right _ _) fun t => (net t).probe_le _ _⟩

end

/-- When a job is over at the latest, and that no request of it stays open for longer than a miner
is asked. -/
structure EndsBy (latest : Nat) (result : Nat × List Call × Option JobResult) : Prop where
  ends : result.1 ≤ latest
  calls : ∀ c ∈ result.2.1, c.ends ≤ c.begins + probeLimit

namespace Network

variable (net : Network) (concurrency now : Nat)

/-- A pass in a network takes so many rounds at most, and no request stays open for longer than
one of them. -/
theorem pass_le (fetchAsic : Bool) (handler : Target → ProbeFailure → Option Device)
    (targets : List Target) :
    let result := net.pass fetchAsic handler concurrency targets now
    result.1 ≤ now + targets.length ⌈/⌉ max concurrency 1 * probeLimit ∧
      ∀ c ∈ result.2.1, c.ends ≤ c.begins + probeLimit := by
  intro result
  obtain ⟨settled, h⟩ :=
    punctual_scan id (fun _ => net) fetchAsic handler concurrency targets now
  refine ⟨h.ends, fun c hc => ?_⟩
  obtain ⟨b, -, hc⟩ := List.mem_flatMap.mp hc
  obtain ⟨hbegins, hends⟩ := ends_of_mem_probeCalls hc
  have hlasts := net.probe_le fetchAsic b.2
  omega

end Network

section

variable (net : Network) (concurrency now : Nat)

/-- A refresh takes as long as its pass. -/
theorem endsBy_refresh (known : List Device) (fetchAsic : Bool) :
    EndsBy (now + known.length ⌈/⌉ max concurrency 1 * probeLimit)
      (Job.runFrom net (Job.refresh known concurrency fetchAsic).moments now
        ((Job.refresh known concurrency fetchAsic).begins net now)) := by
  obtain ⟨hends, hcalls⟩ := net.pass_le concurrency now fetchAsic
    (fun target _ => target.prior.map Device.failed) (known.map Target.ofDevice)
  rw [List.length_map] at hends
  rw [run_refresh]
  exact ⟨hends, hcalls⟩

/-- A discovery waits for its seed, and then takes as long as its pass. -/
theorem endsBy_discovery (seed netmask : String) :
    EndsBy (now + probeLimit + maxScanHosts ⌈/⌉ max concurrency 1 * probeLimit)
      (Job.runFrom net (Job.discovery seed netmask concurrency).moments now
        ((Job.discovery seed netmask concurrency).begins net now)) := by
  have hseed := (net.info seed).within_le probeLimit
  have hasked : now + (net.info seed).openFor probeLimit ≤ now + probeLimit :=
    Nat.add_le_add_left (Reply.openFor_le _ _) now
  rw [run_discovery, Network.discover]
  split
  · dsimp only
    generalize (net.info seed).within probeLimit = reply at hseed ⊢
    obtain ⟨time, answer⟩ := reply
    cases hs : scanTargets seed netmask answer with
    | error fault =>
      refine ⟨?_, List.forall_mem_singleton.mpr hasked⟩
      dsimp only at hseed ⊢
      omega
    | ok addresses =>
      obtain ⟨hends, hcalls⟩ := net.pass_le concurrency (now + time) true (fun _ _ => none)
        (targetsAt addresses)
      refine ⟨?_, List.forall_mem_cons.mpr ⟨hasked, hcalls⟩⟩
      -- There are no more addresses than in the largest network.
      have hrounds : (targetsAt addresses).length ⌈/⌉ max concurrency 1 * probeLimit ≤
          maxScanHosts ⌈/⌉ max concurrency 1 * probeLimit := by
        refine Nat.mul_le_mul_right probeLimit ?_
        rw [targetsAt, List.length_map, Nat.ceilDiv_eq_add_pred_div, Nat.ceilDiv_eq_add_pred_div]
        have := length_hosts_le (hosts_of_own_network hs)
        exact Nat.div_le_div_right (by omega)
      dsimp only at hseed hends ⊢
      omega
  · refine ⟨?_, List.forall_mem_nil _⟩
    dsimp only
    omega

end

/-- A pass ends in time, whatever its miners do: each of them may answer late or never, and may be
reached over another network each time it is asked.

* A miner has its place for five seconds at most. It is asked as soon as as many rounds of five
  seconds are over as those before it fill, and all is over when the rounds of all miners are.
* So a refresh ends within the rounds of the miners that it knows, and a discovery within those of
  the largest network, once its seed has answered or has had its five seconds. -/
theorem pass_ends_in_time {τ : Type} (target : τ → Target) (net : τ → Network) (fetchAsic : Bool)
    (handler : Target → ProbeFailure → Option Device) (concurrency : Nat) (ts : List τ)
    (now : Nat) :
    (let work t := (net t).probe fetchAsic (target t)
     let result := scan target work handler concurrency ts now
     ∃ settled, Pool.Punctual 5000 (max concurrency 1) ts work now result.1 result.2.1 settled) ∧
    (∀ (net : Network) (known : List Device),
      EndsBy (now + known.length ⌈/⌉ max concurrency 1 * 5000)
        (Job.runFrom net (Job.refresh known concurrency fetchAsic).moments now
          ((Job.refresh known concurrency fetchAsic).begins net now))) ∧
    ∀ (net : Network) (seed netmask : String),
      EndsBy (now + 5000 + maxScanHosts ⌈/⌉ max concurrency 1 * 5000)
        (Job.runFrom net (Job.discovery seed netmask concurrency).moments now
          ((Job.discovery seed netmask concurrency).begins net now)) :=
  ⟨punctual_scan target net fetchAsic handler concurrency ts now,
    fun net known => endsBy_refresh net concurrency now known fetchAsic,
    fun net seed netmask => endsBy_discovery net concurrency now seed netmask⟩

/-- Five miners of which none answers, two at a time, take three rounds. -/
example : ((Pool.start 2 [1, 2, 3, 4, 5]).run 0 fun _ : Nat => (5000, ())).1 =
    5 ⌈/⌉ 2 * 5000 := by
  decide

end MinerFleet
