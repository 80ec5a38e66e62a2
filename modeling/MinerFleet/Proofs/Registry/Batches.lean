/-
Discoveries in batches.

* `newcomers_eq_nil_iff` — nobody is new where each miner found shares an address with one that is
  there;
* `newcomers_append` — the newcomers of two batches, the second of which finds those of the first;
* `SortSpec.sort_sort_append` — putting a list into order first makes no difference to the order
  that it has with others behind it;
* `Registry.merge_in_batches` — what this comes to for a registry.

To share an address is no equivalence: a miner can share its name with one and its dialed address
with another. But who is known stays known when more are, and it does not matter in which order
those stand that are known (`newcomers_congr`). So what was found once is never new again.
-/
import MinerFleet.Proofs.Fleet.Arrangement
import MinerFleet.Proofs.Registry.Changes

namespace MinerFleet

/-- Those that are put into order before others are added end up as if they had not been. -/
theorem SortSpec.sort_sort_append (spec : SortSpec) (as bs : List Device) :
    spec.sort (spec.sort as ++ bs) = spec.sort (as ++ bs) := by
  have hfirst := spec.stablySorted_sort as
  have hall := spec.stablySorted_sort (spec.sort as ++ bs)
  refine StablySorted.unique ⟨?_, hall.ordered, fun x => ?_⟩ (spec.stablySorted_sort (as ++ bs))
  · exact hall.perm.trans (hfirst.perm.append_right bs)
  · rw [hall.stable, alike_append, alike_append, hfirst.stable]

namespace Registry

/-! ### Newcomers -/

/-- Who is new does not depend on how those stand who are known. -/
theorem newcomers_congr {as bs : List Device} (h : ∀ d, d ∈ as ↔ d ∈ bs) (found : List Device) :
    newcomers as found = newcomers bs found := by
  induction found generalizing as bs with
  | nil => rfl
  | cons d ds ih =>
    have hany : as.any (·.sameIdentity d) = bs.any (·.sameIdentity d) := by
      rw [Bool.eq_iff_iff, List.any_eq_true, List.any_eq_true]
      simp only [h]
    have hrest : ∀ e, e ∈ as ++ [d] ↔ e ∈ bs ++ [d] := fun e => by
      rw [List.mem_append, List.mem_append, h]
    rw [newcomers, newcomers, hany, ih h, ih hrest]

theorem newcomers_append (devices xs ys : List Device) :
    newcomers devices (xs ++ ys) =
      newcomers devices xs ++ newcomers (devices ++ newcomers devices xs) ys := by
  induction xs generalizing devices with
  | nil => rw [List.nil_append, newcomers, List.nil_append, List.append_nil]
  | cons d ds ih =>
    rw [List.cons_append, newcomers, newcomers]
    by_cases h : devices.any (·.sameIdentity d)
    · rw [if_pos h, if_pos h, ih]
    · rw [if_neg h, if_neg h, ih, List.cons_append, List.append_assoc, List.singleton_append]

/-- Nobody is new if all share an address with somebody, and then all do. -/
theorem newcomers_eq_nil_iff {devices found : List Device} :
    newcomers devices found = [] ↔ ∀ d ∈ found, ∃ e ∈ devices, e.sameIdentity d = true := by
  induction found with
  | nil => exact iff_of_true rfl (List.forall_mem_nil _)
  | cons d ds ih =>
    rw [newcomers, List.forall_mem_cons, ← List.any_eq_true]
    by_cases h : devices.any (·.sameIdentity d)
    · rw [if_pos h, ih, and_iff_right h]
    · rw [if_neg h]
      exact iff_of_false (List.cons_ne_nil _ _) fun hall => h hall.1

/-- Whoever was found shares an address with somebody afterwards. -/
theorem exists_sameIdentity_of_mem (devices : List Device) {found : List Device} {d : Device}
    (h : d ∈ found) :
    ∃ e ∈ devices ++ newcomers devices found, e.sameIdentity d = true := by
  induction found generalizing devices with
  | nil => cases h
  | cons c cs ih =>
    rw [newcomers]
    by_cases hc : devices.any (·.sameIdentity c)
    · rw [if_pos hc]
      rcases List.mem_cons.mp h with rfl | h
      · obtain ⟨e, he, hs⟩ := List.any_eq_true.mp hc
        exact ⟨e, List.mem_append_left _ he, hs⟩
      · exact ih devices h
    · rw [if_neg hc]
      rcases List.mem_cons.mp h with rfl | h
      · refine ⟨d, List.mem_append_right _ List.mem_cons_self, ?_⟩
        rw [Device.sameIdentity, decide_eq_true rfl, Bool.true_or]
      · have hrest := ih (devices ++ [c]) h
        rwa [List.append_assoc, List.singleton_append] at hrest

/-! ### Registries -/

variable {σ : Type} [Store σ]

/-- If nobody is new, nothing happens. -/
theorem merge_of_newcomers_eq_nil {r : Registry σ} {found : List Device}
    (h : newcomers r.devices found = []) : r.merge found = (r, 0, []) := by
  have hadded : (mergeInto r.devices found).length - r.devices.length = 0 := by
    rw [mergeInto_eq, h, List.append_nil, Nat.sub_self]
  rw [merge]
  exact if_pos hadded

/-- If somebody is new, all are put into order and summed up. -/
theorem memory_merge {r : Registry σ} {found : List Device} (h : newcomers r.devices found ≠ []) :
    (r.merge found).1.memory =
      { r with devices := r.devices ++ newcomers r.devices found }.resort.memory := by
  have hadded : (mergeInto r.devices found).length - r.devices.length ≠ 0 := by
    rw [mergeInto_eq, List.length_append, Nat.add_sub_cancel_left]
    exact mt List.length_eq_zero_iff.mp h
  rw [merge]
  dsimp only
  rw [if_neg hadded, mergeInto_eq]
  rfl

theorem sort_merge (r : Registry σ) (found : List Device) : (r.merge found).1.sort = r.sort := by
  by_cases h : newcomers r.devices found = []
  · rw [merge_of_newcomers_eq_nil h]
  · exact congrArg (·.2.1) (memory_merge h)

/-- After a discovery, those are new that would be new if it had only put its own behind. -/
theorem newcomers_merge (r : Registry σ) (xs ys : List Device) :
    newcomers (r.merge xs).1.devices ys =
      newcomers (r.devices ++ newcomers r.devices xs) ys :=
  newcomers_congr (fun _ => (perm_merge r xs).1.mem_iff) ys

/-- Two discoveries leave in memory what one of both leaves. -/
theorem memory_merge_merge (r : Registry σ) (xs ys : List Device) :
    ((r.merge xs).1.merge ys).1.memory = (r.merge (xs ++ ys)).1.memory := by
  have hboth := newcomers_append r.devices xs ys
  by_cases hx : newcomers r.devices xs = []
  · -- The first finds nobody new, and leaves everything as it is.
    rw [merge_of_newcomers_eq_nil hx]
    rw [hx, List.nil_append, List.append_nil] at hboth
    by_cases hy : newcomers r.devices ys = []
    · rw [merge_of_newcomers_eq_nil hy, merge_of_newcomers_eq_nil (hboth.trans hy)]
    · rw [memory_merge hy, memory_merge (hboth ▸ hy), hboth]
  · have hfirst := memory_merge hx
    have hany : newcomers r.devices (xs ++ ys) ≠ [] := fun hnil =>
      hx (List.append_eq_nil_iff.mp (hboth.symm.trans hnil)).1
    rw [memory_merge hany, hboth]
    by_cases hy : newcomers (r.merge xs).1.devices ys = []
    · rw [merge_of_newcomers_eq_nil hy, hfirst, ← newcomers_merge, hy, List.append_nil]
    · -- What the first has put into order is put into order again, with more behind it.
      have hdevices : (r.merge xs).1.devices =
          r.sort.sort (r.devices ++ newcomers r.devices xs) := congrArg (·.1) hfirst
      have hsorted : r.sort.sort ((r.merge xs).1.devices ++
            newcomers (r.merge xs).1.devices ys) =
          r.sort.sort (r.devices ++ (newcomers r.devices xs ++
            newcomers (r.devices ++ newcomers r.devices xs) ys)) := by
        rw [newcomers_merge, hdevices, SortSpec.sort_sort_append, List.append_assoc]
      rw [memory_merge hy]
      simp only [memory, resort, sort_merge, hsorted]

/-- What a discovery leaves in a registry does not depend on how it is cut into batches, nor on how
often a miner is found. The registry may hold anything and be in any order.

* As many are counted as the registry has grown by, and no record that was there is lost or changed.
* Whoever was found shares an address with somebody in the registry, so that finding any of them
  again does nothing at all: nobody is counted, and nothing is written or told.
* Two batches leave the same miners in the same order, and the same sums, as both in one, and their
  counts add up. -/
theorem merge_in_batches (r : Registry σ) (xs ys : List Device) :
    (r.merge xs).1.devices.length = r.devices.length + (r.merge xs).2.1 ∧
    r.devices.Subperm (r.merge xs).1.devices ∧
    (∀ d ∈ xs, ∃ e ∈ (r.merge xs).1.devices, e.sameIdentity d = true) ∧
    (∀ zs, zs ⊆ xs → (r.merge xs).1.merge zs = ((r.merge xs).1, 0, [])) ∧
    ((r.merge xs).1.merge ys).1.memory = (r.merge (xs ++ ys)).1.memory ∧
    (r.merge (xs ++ ys)).2.1 = (r.merge xs).2.1 + ((r.merge xs).1.merge ys).2.1 := by
  obtain ⟨hperm, hcount⟩ := perm_merge r xs
  have hknown : ∀ d ∈ xs, ∃ e ∈ (r.merge xs).1.devices, e.sameIdentity d = true := by
    intro d hd
    obtain ⟨e, he, hs⟩ := exists_sameIdentity_of_mem r.devices hd
    exact ⟨e, hperm.mem_iff.mpr he, hs⟩
  refine ⟨?_, ?_, hknown, fun zs hz => ?_, memory_merge_merge r xs ys, ?_⟩
  · rw [hperm.length_eq, hcount, List.length_append]
  · exact (List.sublist_append_left _ _).subperm.trans hperm.symm.subperm
  · exact merge_of_newcomers_eq_nil (newcomers_eq_nil_iff.mpr fun d hd => hknown d (hz hd))
  · rw [(perm_merge r (xs ++ ys)).2, (perm_merge _ ys).2, hcount, newcomers_append,
      newcomers_merge, List.length_append]

/-- Three records are found: of a known miner under another name, of a new one, and of the new one
under another name. -/
def foundAgain : List Device :=
  [Device.at_ "gamma.local" "10.1.1.50", Device.at_ "10.1.1.40" "10.1.1.40",
    Device.at_ "delta.local" "10.1.1.40"]

/-- One of the three is added, and none of the last two when they are found again. -/
theorem merge_in_batches_of_three :
    let r := (open_ twoMiners).1
    (r.merge foundAgain).2.1 = 1 ∧ foundAgain.tail ⊆ foundAgain ∧
      (r.merge foundAgain).1.merge foundAgain.tail = ((r.merge foundAgain).1, 0, []) ∧
      dialed ((r.merge (foundAgain.take 1)).1.merge foundAgain.tail).1.devices =
        ["10.1.1.40", "10.1.1.50", "10.1.1.60"] := by
  intro r
  have hsub : foundAgain.tail ⊆ foundAgain := (List.tail_sublist foundAgain).subset
  obtain ⟨-, -, -, hagain, -⟩ := merge_in_batches r foundAgain []
  obtain ⟨-, -, -, -, hbatches, -⟩ := merge_in_batches r (foundAgain.take 1) foundAgain.tail
  refine ⟨by decide +kernel, hsub, hagain _ hsub, ?_⟩
  have hdevices := congrArg (·.1) hbatches
  refine (congrArg dialed hdevices).trans ?_
  decide +kernel

end Registry

end MinerFleet
