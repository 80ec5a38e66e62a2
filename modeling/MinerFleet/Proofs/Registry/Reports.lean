/-
Reports with the same records change a registry in the same way, whatever their order.

* `RecordedOnce` — two records that share an address are the same;
* `SortSpec.sort_eq_of_perm` — the order by addresses leaves no choice where they are distinct;
* `Registry.merge_eq_of_perm`, `Registry.applyRefresh_eq_of_perm` — the registry after a discovery,
  and after a refresh.

Each change looks at one record after the other. A discovery adds a miner that shares no address
with any before it; where all are recorded once, that is one which shares no address with any that
was known (`mem_newcomers`). A refresh takes the last record at an address; where all are dialed
once, it is the only one (`resultFor_eq_of_perm`).
-/
import MinerFleet.Proofs.Address.Order
import MinerFleet.Proofs.Fleet.Order
import MinerFleet.Proofs.Registry.Devices

namespace MinerFleet

/-! ### Sorting -/

namespace SortSpec

variable {spec : SortSpec}

/-- Records that may stand either way by their addresses have the same one. -/
theorem address_eq_of_compare (h : spec.field = .address) {a b : Device}
    (he : spec.compare a b = .eq) : a.address = b.address := by
  have haddress : ∀ d, SortKey.ofDevice d spec.field = .address d.address := by
    intro d
    rw [h]
    rfl
  rw [compare_eq_of_address haddress] at he
  cases hd : spec.direction with
  | asc =>
    rw [hd] at he
    exact eq_of_compareAddresses he
  | desc =>
    rw [hd] at he
    exact eq_of_compareAddresses (Ordering.swap_eq_eq.mp he)

/-- Distinct addresses have one order. -/
theorem sort_eq_of_perm (h : spec.field = .address) {as bs : List Device} (hp : as.Perm bs)
    (hn : (as.map (·.address)).Nodup) : spec.sort as = spec.sort bs := by
  have hsorted : (spec.sort as).Perm (spec.sort bs) :=
    (spec.perm_sort as).trans (hp.trans (spec.perm_sort bs).symm)
  refine hsorted.eq_of_pairwise ?_ (spec.sorted_sort as) (spec.sorted_sort bs)
  intro a b ha hb hab hba
  -- Neither stands behind the other, so that they have the same address.
  have heq : spec.compare a b = .eq := Std.OrientedCmp.isLE_antisymm
    (Ordering.ne_gt_iff_isLE.mp hab) (Ordering.ne_gt_iff_isLE.mp hba)
  have ha' : a ∈ as := (spec.perm_sort as).mem_iff.mp ha
  have hb' : b ∈ as := hp.mem_iff.mpr ((spec.perm_sort bs).mem_iff.mp hb)
  exact List.inj_on_of_nodup_map hn ha' hb' (address_eq_of_compare h heq)

end SortSpec

/-- Two records that share an address are the same. -/
def RecordedOnce (ds : List Device) : Prop :=
  ∀ d ∈ ds, ∀ e ∈ ds, d.sameIdentity e = true → d = e

namespace Registry

variable {σ : Type}

/-! ### Discoveries -/

theorem mem_newcomers {devices found : List Device} (h : RecordedOnce found) {d : Device} :
    d ∈ newcomers devices found ↔ d ∈ found ∧ ∀ b ∈ devices, b.sameIdentity d = false := by
  constructor
  · intro hd
    exact ⟨(newcomers_sublist devices found).subset hd,
      fun b hb => not_sameIdentity_of_mem_newcomers hb hd⟩
  · rintro ⟨hd, hnew⟩
    induction found generalizing devices with
    | nil => exact hd
    | cons c cs ih =>
      have htail : RecordedOnce cs := fun a ha b hb =>
        h a (List.mem_cons_of_mem c ha) b (List.mem_cons_of_mem c hb)
      rw [newcomers]
      by_cases hc : devices.any (·.sameIdentity c)
      · rw [if_pos hc]
        refine ih htail ((List.mem_cons.mp hd).resolve_left ?_) hnew
        rintro rfl
        obtain ⟨b, hb, hs⟩ := List.any_eq_true.mp hc
        rw [hnew b hb] at hs
        exact Bool.false_ne_true hs
      · rw [if_neg hc, List.mem_cons]
        by_cases hdc : d = c
        · exact .inl hdc
        · -- Another record does not share an address with the one that was added before it.
          have hdcs := (List.mem_cons.mp hd).resolve_left hdc
          refine .inr (ih htail hdcs fun b hb => ?_)
          rcases List.mem_append.mp hb with hb | hb
          · exact hnew b hb
          · rw [List.mem_singleton.mp hb, Bool.eq_false_iff]
            exact fun hs => hdc (h c List.mem_cons_self d hd hs).symm

theorem nodup_newcomers (devices found : List Device) : (newcomers devices found).Nodup := by
  refine (pairwise_newcomers devices found).imp ?_
  rintro a b hab rfl
  exact connectionAddress_ne_of_not_sameIdentity hab rfl

/-- A discovery adds the same miners in whatever order they were found. -/
theorem perm_newcomers {found found' : List Device} (hp : found.Perm found') (h : RecordedOnce found)
    (devices : List Device) : (newcomers devices found).Perm (newcomers devices found') := by
  have h' : RecordedOnce found' := fun d hd e he =>
    h d (hp.mem_iff.mpr hd) e (hp.mem_iff.mpr he)
  rw [List.perm_ext_iff_of_nodup (nodup_newcomers _ _) (nodup_newcomers _ _)]
  intro d
  rw [mem_newcomers h, mem_newcomers h', hp.mem_iff]

variable [Store σ]

/-- A change leaves the same registry wherever the order leaves no choice. -/
theorem commit_eq_of_perm {r : Registry σ} (h : r.sort.field = .address) {as bs : List Device}
    (hp : as.Perm bs) (hn : (as.map (·.address)).Nodup) :
    { r with devices := as }.commit = { r with devices := bs }.commit := by
  have hsort := SortSpec.sort_eq_of_perm h hp hn
  have hresort : { r with devices := as }.resort = { r with devices := bs }.resort := by
    simp only [resort, hsort]
  rw [commit, commit, hresort]

theorem merge_eq_of_perm {r : Registry σ} (h : r.sort.field = .address)
    {found found' : List Device} (hp : found.Perm found') (hc : RecordedOnce found)
    (hn : ((r.merge found).1.devices.map (·.address)).Nodup) :
    r.merge found = r.merge found' := by
  have hadded := (perm_newcomers hp hc r.devices).append_left r.devices
  rw [((perm_merge r found).1.map _).nodup_iff] at hn
  rw [← mergeInto_eq, ← mergeInto_eq] at hadded
  rw [← mergeInto_eq] at hn
  rw [merge, merge, commit_eq_of_perm h hadded hn, hadded.length_eq]

/-! ### Refreshes -/

/-- Where each address is dialed once, it does not matter which record is the last. -/
theorem resultFor_eq_of_perm {refreshed refreshed' : List Device}
    (hp : refreshed.Perm refreshed') (h : DialedOnce refreshed) (a : String) :
    resultFor refreshed a = resultFor refreshed' a := by
  have hrev : refreshed.reverse.Perm refreshed'.reverse :=
    (List.reverse_perm _).trans (hp.trans (List.reverse_perm _).symm)
  refine find?_eq_of_perm hrev fun d hd e he hda hea => ?_
  have hsame : d.connectionAddress = e.connectionAddress :=
    (of_decide_eq_true hda).trans (of_decide_eq_true hea).symm
  exact List.inj_on_of_nodup_map h (List.mem_reverse.mp hd) (List.mem_reverse.mp he) hsame

/-- A refresh uses nothing but the result for each address. -/
theorem replaceFrom_congr {refreshed refreshed' : List Device}
    (h : ∀ a, resultFor refreshed a = resultFor refreshed' a) (taken : List String)
    (ds : List Device) : replaceFrom refreshed taken ds = replaceFrom refreshed' taken ds := by
  induction ds generalizing taken with
  | nil => rfl
  | cons d ds ih => simp only [replaceFrom, h, ih]

theorem applyRefresh_eq_of_perm (r : Registry σ) {refreshed refreshed' : List Device}
    (hp : refreshed.Perm refreshed') (h : DialedOnce refreshed) :
    r.applyRefresh refreshed = r.applyRefresh refreshed' := by
  rw [applyRefresh, applyRefresh, replaceFrom_congr (resultFor_eq_of_perm hp h)]

end Registry

end MinerFleet
