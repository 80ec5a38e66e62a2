/-
What the changes to a registry do to its miners.

* `dialed` — the addresses that the miners of a list are dialed at, and `DialedOnce`, that no two
  of them have the same;
* `newcomers` — what a discovery adds: the miners found that share no address with any before
  them;
* `updated` — what a refresh makes of a miner: its result, or the record that it has.

A change puts the miners into order again, so that each lemma holds up to the order:
`perm_merge`, `insert_cases`, `perm_remove` and `perm_applyRefresh`. A refresh keeps all dialed
addresses whatever its results are (`dialed_replaceFrom`); where every miner is dialed once, each
record becomes its own result (`replaceFrom_eq_map`).
-/
import MinerFleet.Registry

namespace MinerFleet

/-- The addresses that miners are dialed at. -/
def dialed (ds : List Device) : List String :=
  ds.map (·.connectionAddress)

/-- No two miners are dialed at the same address. -/
def DialedOnce (ds : List Device) : Prop :=
  (dialed ds).Nodup

instance (ds : List Device) : Decidable (DialedOnce ds) :=
  inferInstanceAs (Decidable (dialed ds).Nodup)

@[simp] theorem dialed_cons (d : Device) (ds : List Device) :
    dialed (d :: ds) = d.connectionAddress :: dialed ds := rfl

@[simp] theorem dialed_append (as bs : List Device) : dialed (as ++ bs) = dialed as ++ dialed bs :=
  List.map_append

theorem mem_dialed {ds : List Device} {a : String} :
    a ∈ dialed ds ↔ ∃ d ∈ ds, d.connectionAddress = a :=
  List.mem_map

theorem mem_dialed_of_mem {ds : List Device} {d : Device} (h : d ∈ ds) :
    d.connectionAddress ∈ dialed ds :=
  mem_dialed.mpr ⟨d, h, rfl⟩

theorem perm_dialed {as bs : List Device} (h : as.Perm bs) : (dialed as).Perm (dialed bs) :=
  h.map _

theorem dialedOnce_congr {as bs : List Device} (h : as.Perm bs) : DialedOnce as ↔ DialedOnce bs :=
  (perm_dialed h).nodup_iff

/-- The miners that are dialed at an address. -/
def dialedAt (a : String) (ds : List Device) : List Device :=
  ds.filter fun d => d.connectionAddress = a

theorem dialedAt_eq_nil {a : String} {ds : List Device} : dialedAt a ds = [] ↔ a ∉ dialed ds := by
  rw [dialedAt, List.filter_eq_nil_iff, mem_dialed]
  constructor
  · rintro h ⟨d, hd, ha⟩
    exact h d hd (by simpa using ha)
  · intro h d hd ha
    exact h ⟨d, hd, by simpa using ha⟩

theorem perm_dialedAt (a : String) {as bs : List Device} (h : as.Perm bs) :
    (dialedAt a as).Perm (dialedAt a bs) :=
  h.filter _

/-- A miner that is the only one at an address stays so in another order. -/
theorem dialedAt_eq_singleton_of_perm {a : String} {as bs : List Device} {d : Device}
    (h : as.Perm bs) (ha : dialedAt a as = [d]) : dialedAt a bs = [d] := by
  have hp := perm_dialedAt a h
  rw [ha] at hp
  exact (List.singleton_perm.mp hp).symm

theorem dialedAt_append (a : String) (as bs : List Device) :
    dialedAt a (as ++ bs) = dialedAt a as ++ dialedAt a bs :=
  List.filter_append ..

theorem dialedAt_cons_of_ne {a : String} {d : Device} {ds : List Device}
    (h : d.connectionAddress ≠ a) : dialedAt a (d :: ds) = dialedAt a ds := by
  rw [dialedAt, List.filter_cons_of_neg (by simpa using h), dialedAt]

theorem dialedAt_cons_self (d : Device) (ds : List Device) :
    dialedAt d.connectionAddress (d :: ds) = d :: dialedAt d.connectionAddress ds := by
  rw [dialedAt, List.filter_cons_of_pos (by simp), dialedAt]

/-- What only one record can be is found in whatever order the records stand. -/
theorem find?_eq_of_perm {p : Device → Bool} {as bs : List Device} (h : as.Perm bs)
    (hone : ∀ d ∈ as, ∀ e ∈ as, p d = true → p e = true → d = e) :
    as.find? p = bs.find? p := by
  cases hd : as.find? p with
  | none =>
    rw [List.find?_eq_none] at hd
    symm
    rw [List.find?_eq_none]
    exact fun d hm => hd d (h.mem_iff.mpr hm)
  | some d =>
    have hm := List.mem_of_find?_eq_some hd
    have hp := List.find?_some hd
    cases he : bs.find? p with
    | none => exact absurd hp (List.find?_eq_none.mp he d (h.mem_iff.mp hm))
    | some e =>
      have hme := h.mem_iff.mpr (List.mem_of_find?_eq_some he)
      rw [hone d hm e hme hp (List.find?_some he)]

/-- A store with two miners. -/
def twoMiners : MemoryStore :=
  KeyMap.ofList [(Store.devicesKey, .array
    [.object [("address", .string "10.1.1.50"), ("connectionAddress", .string "10.1.1.50")],
     .object [("address", .string "10.1.1.60"), ("connectionAddress", .string "10.1.1.60")]])]

namespace Registry

variable {σ : Type}

theorem dials_iff {r : Registry σ} {a : String} : r.dials a = true ↔ a ∈ dialed r.devices := by
  rw [dials, List.any_eq_true, mem_dialed]
  simp only [decide_eq_true_eq]

theorem isEmpty_iff {r : Registry σ} : r.isEmpty = true ↔ r.devices = [] := by
  rw [isEmpty, List.isEmpty_iff]

variable [Store σ]

/-- Whether a change is written or not, it puts the miners into order and loses none. -/
theorem perm_commit (r : Registry σ) : r.commit.1.devices.Perm r.devices :=
  SortSpec.perm_sort r.sort r.devices

theorem perm_setSort (r : Registry σ) (spec : SortSpec) :
    (r.setSort spec).1.devices.Perm r.devices :=
  SortSpec.perm_sort spec r.devices

theorem perm_sortBy (r : Registry σ) (field : SortField) :
    (r.sortBy field).1.devices.Perm r.devices :=
  perm_setSort r _

/-! ### Discoveries -/

/-- The miners among those found that share no address with any before them. -/
def newcomers (devices : List Device) : List Device → List Device
  | [] => []
  | d :: ds =>
    if devices.any (·.sameIdentity d) then newcomers devices ds
    else d :: newcomers (devices ++ [d]) ds

theorem mergeInto_eq (devices found : List Device) :
    mergeInto devices found = devices ++ newcomers devices found := by
  induction found generalizing devices with
  | nil => rw [mergeInto, newcomers, List.append_nil]
  | cons d ds ih =>
    rw [mergeInto, newcomers]
    by_cases h : devices.any (·.sameIdentity d)
    · rw [if_pos h, if_pos h, ih]
    · rw [if_neg h, if_neg h, ih, List.append_assoc, List.singleton_append]

theorem newcomers_sublist (devices found : List Device) :
    (newcomers devices found).Sublist found := by
  induction found generalizing devices with
  | nil => exact List.Sublist.refl []
  | cons d ds ih =>
    rw [newcomers]
    by_cases h : devices.any (·.sameIdentity d)
    · rw [if_pos h]
      exact (ih devices).cons d
    · rw [if_neg h]
      exact (ih _).cons_cons d

/-- A newcomer shares no address with the miners that were there. -/
theorem not_sameIdentity_of_mem_newcomers {devices found : List Device} {b d : Device}
    (hb : b ∈ devices) (hd : d ∈ newcomers devices found) : b.sameIdentity d = false := by
  induction found generalizing devices with
  | nil => exact absurd hd List.not_mem_nil
  | cons c cs ih =>
    rw [newcomers] at hd
    by_cases h : devices.any (·.sameIdentity c)
    · rw [if_pos h] at hd
      exact ih hb hd
    · rw [if_neg h] at hd
      rcases List.mem_cons.mp hd with rfl | hd
      · rw [List.any_eq_true, not_exists] at h
        exact Bool.not_eq_true _ ▸ fun hs => h b ⟨hb, hs⟩
      · exact ih (List.mem_append_left [c] hb) hd

/-- No two newcomers share an address. -/
theorem pairwise_newcomers (devices found : List Device) :
    (newcomers devices found).Pairwise fun a b => a.sameIdentity b = false := by
  induction found generalizing devices with
  | nil => exact List.Pairwise.nil
  | cons d ds ih =>
    rw [newcomers]
    by_cases h : devices.any (·.sameIdentity d)
    · rw [if_pos h]
      exact ih devices
    · rw [if_neg h]
      have hd : d ∈ devices ++ [d] := List.mem_append_right devices List.mem_cons_self
      exact List.Pairwise.cons (fun b hb => not_sameIdentity_of_mem_newcomers hd hb) (ih _)

theorem connectionAddress_ne_of_not_sameIdentity {a b : Device} (h : a.sameIdentity b = false) :
    a.connectionAddress ≠ b.connectionAddress := by
  intro he
  rw [Device.sameIdentity, decide_eq_true he, Bool.or_true] at h
  exact absurd h (by decide)

/-- Newcomers are dialed once, at addresses that were not dialed before. -/
theorem dialedOnce_append_newcomers {devices : List Device} (h : DialedOnce devices)
    (found : List Device) : DialedOnce (devices ++ newcomers devices found) := by
  rw [DialedOnce, dialed_append, List.nodup_append]
  refine ⟨h, ?_, ?_⟩
  · exact List.Pairwise.map _ (fun _ _ => connectionAddress_ne_of_not_sameIdentity)
      (pairwise_newcomers devices found)
  · intro a ha b hb
    obtain ⟨x, hx, rfl⟩ := mem_dialed.mp ha
    obtain ⟨y, hy, rfl⟩ := mem_dialed.mp hb
    exact connectionAddress_ne_of_not_sameIdentity (not_sameIdentity_of_mem_newcomers hx hy)

/-- A discovery adds the newcomers and nothing else, and counts them. -/
theorem perm_merge (r : Registry σ) (found : List Device) :
    (r.merge found).1.devices.Perm (r.devices ++ newcomers r.devices found) ∧
      (r.merge found).2.1 = (newcomers r.devices found).length := by
  have hlen : (mergeInto r.devices found).length - r.devices.length =
      (newcomers r.devices found).length := by
    rw [mergeInto_eq, List.length_append, Nat.add_sub_cancel_left]
  rw [merge]
  by_cases h : (newcomers r.devices found).length = 0
  · rw [if_pos (hlen.trans h), h, List.length_eq_zero_iff.mp h, List.append_nil]
    exact ⟨List.Perm.refl _, rfl⟩
  · rw [if_neg (fun hz => h (hlen.symm.trans hz)), ← mergeInto_eq]
    exact ⟨perm_commit { r with devices := mergeInto r.devices found }, hlen⟩

/-! ### Adding and removing -/

/-- A miner is added if its address is not dialed yet; otherwise the fault names the address. -/
theorem insert_cases (r : Registry σ) (d : Device) :
    (d.connectionAddress ∈ dialed r.devices ∧
      r.insert d = .error (.duplicate d.connectionAddress)) ∨
    (d.connectionAddress ∉ dialed r.devices ∧
      ∃ r' log, r.insert d = .ok (r', log) ∧ r'.devices.Perm (d :: r.devices)) := by
  rw [insert]
  by_cases h : r.dials d.connectionAddress
  · exact .inl ⟨dials_iff.mp h, if_pos h⟩
  · refine .inr ⟨fun hd => h (dials_iff.mpr hd), _, _, if_neg h, ?_⟩
    exact (perm_commit _).trans (List.perm_append_singleton d r.devices)

theorem perm_eraseP {p : Device → Bool} {ds : List Device} {d : Device}
    (h : ds.find? p = some d) : ds.Perm (d :: ds.eraseP p) := by
  obtain ⟨hp, as, bs, rfl, has⟩ := List.find?_eq_some_iff_append.mp h
  have hnone : ∀ b ∈ as, ¬ p b = true := fun b hb => by simpa using has b hb
  rw [List.eraseP_append_right _ hnone, List.eraseP_cons_of_pos hp]
  exact List.perm_middle

/-- What is taken out was there and goes by the name; all others stay. -/
theorem perm_remove {r r' : Registry σ} {name : String} {d : Device} {log : List LogEvent}
    (h : r.remove name = some (d, r', log)) :
    d ∈ r.devices ∧ d.isKnownAs name = true ∧ r.devices.Perm (d :: r'.devices) := by
  rw [remove, Option.map_eq_some_iff] at h
  obtain ⟨c, hc, he⟩ := h
  obtain ⟨rfl, hr⟩ := Prod.mk.inj he
  have hp := perm_commit { r with devices := r.devices.eraseP (·.isKnownAs name) }
  rw [hr] at hp
  rw [find?] at hc
  have hk := List.find?_some hc
  exact ⟨List.mem_of_find?_eq_some hc, hk, (perm_eraseP hc).trans (hp.symm.cons c)⟩

/-! ### Refreshes -/

/-- A miner after a refresh: its result, or the record that it has. -/
def updated (refreshed : List Device) (d : Device) : Device :=
  (resultFor refreshed d.connectionAddress).getD d

theorem resultFor_connectionAddress {refreshed : List Device} {a : String} {d : Device}
    (h : resultFor refreshed a = some d) : d.connectionAddress = a := by
  simpa using List.find?_some h

theorem resultFor_eq_none {refreshed : List Device} {a : String} :
    resultFor refreshed a = none ↔ a ∉ dialed refreshed := by
  rw [resultFor, List.find?_eq_none, mem_dialed]
  constructor
  · rintro h ⟨d, hd, ha⟩
    exact h d (List.mem_reverse.mpr hd) (by simpa using ha)
  · intro h d hd ha
    exact h ⟨d, List.mem_reverse.mp hd, by simpa using ha⟩

@[simp] theorem updated_connectionAddress (refreshed : List Device) (d : Device) :
    (updated refreshed d).connectionAddress = d.connectionAddress := by
  rw [updated]
  cases h : resultFor refreshed d.connectionAddress with
  | none => rfl
  | some fresh => exact resultFor_connectionAddress h

/-- The first record at an address that was not taken yet becomes its result. -/
theorem replaceFrom_cons (refreshed : List Device) {taken : List String} {d : Device}
    (ht : d.connectionAddress ∉ taken) (ds : List Device) :
    ∃ taken' ⊆ d.connectionAddress :: taken,
      replaceFrom refreshed taken (d :: ds) =
        updated refreshed d :: replaceFrom refreshed taken' ds := by
  have hc : taken.contains d.connectionAddress = false := by simpa using ht
  rw [replaceFrom, updated]
  simp only [hc, Bool.false_eq_true, if_false]
  cases resultFor refreshed d.connectionAddress with
  | none => exact ⟨taken, List.subset_cons_self _ _, rfl⟩
  | some fresh => exact ⟨_, List.Subset.refl _, rfl⟩

theorem replaceFrom_cons_of_taken {refreshed : List Device} {taken : List String} {d : Device}
    (ht : d.connectionAddress ∈ taken) (ds : List Device) :
    replaceFrom refreshed taken (d :: ds) = d :: replaceFrom refreshed taken ds := by
  have hc : taken.contains d.connectionAddress = true := by simpa using ht
  rw [replaceFrom]
  simp only [hc, if_true]

/-- A refresh neither loses nor invents an address, whatever its results are. -/
theorem dialed_replaceFrom (refreshed : List Device) (taken : List String) (ds : List Device) :
    dialed (replaceFrom refreshed taken ds) = dialed ds := by
  induction ds generalizing taken with
  | nil => rfl
  | cons d ds ih =>
    by_cases ht : d.connectionAddress ∈ taken
    · rw [replaceFrom_cons_of_taken ht, dialed_cons, dialed_cons, ih]
    · obtain ⟨taken', -, he⟩ := replaceFrom_cons refreshed ht ds
      rw [he, dialed_cons, dialed_cons, ih, updated_connectionAddress]

/-- Where every miner is dialed once, each one gets its own result. -/
theorem replaceFrom_eq_map {refreshed : List Device} {taken : List String} {ds : List Device}
    (h : DialedOnce ds) (ht : ∀ a ∈ taken, a ∉ dialed ds) :
    replaceFrom refreshed taken ds = ds.map (updated refreshed) := by
  induction ds generalizing taken with
  | nil => rfl
  | cons d ds ih =>
    obtain ⟨hd, hds⟩ := List.nodup_cons.mp h
    have hdt : d.connectionAddress ∉ taken := fun hm => ht _ hm List.mem_cons_self
    obtain ⟨taken', hsub, he⟩ := replaceFrom_cons refreshed hdt ds
    rw [he, List.map_cons, ih hds]
    intro a ha
    rcases List.mem_cons.mp (hsub ha) with rfl | ha
    · exact hd
    · exact fun hm => ht a ha (List.mem_cons_of_mem _ hm)

/-- A miner that is alone at its address gets its result, whoever else shares an address. -/
theorem dialedAt_replaceFrom {refreshed : List Device} {taken : List String} {ds : List Device}
    {a : String} {d : Device} (h : dialedAt a ds = [d]) (ht : a ∉ taken) :
    dialedAt a (replaceFrom refreshed taken ds) = [updated refreshed d] := by
  induction ds generalizing taken with
  | nil => exact absurd h (by simp [dialedAt])
  | cons c cs ih =>
    by_cases hc : c.connectionAddress = a
    -- This is the miner, and no other is dialed at the address.
    · subst hc
      rw [dialedAt_cons_self] at h
      obtain ⟨rfl, hcs⟩ := List.cons.inj h
      obtain ⟨taken', -, he⟩ := replaceFrom_cons refreshed ht cs
      have hrest : dialedAt c.connectionAddress (replaceFrom refreshed taken' cs) = [] := by
        rw [dialedAt_eq_nil, dialed_replaceFrom]
        exact dialedAt_eq_nil.mp hcs
      rw [he, ← updated_connectionAddress refreshed c, dialedAt_cons_self,
        updated_connectionAddress, hrest]
    · rw [dialedAt_cons_of_ne hc] at h
      by_cases hct : c.connectionAddress ∈ taken
      · rw [replaceFrom_cons_of_taken hct, dialedAt_cons_of_ne hc]
        exact ih h ht
      · obtain ⟨taken', hsub, he⟩ := replaceFrom_cons refreshed hct cs
        have hne : (updated refreshed c).connectionAddress ≠ a := by
          rw [updated_connectionAddress]
          exact hc
        rw [he, dialedAt_cons_of_ne hne]
        refine ih h fun hm => ?_
        rcases List.mem_cons.mp (hsub hm) with he' | hm
        · exact hc he'.symm
        · exact ht hm

theorem perm_applyRefresh (r : Registry σ) (refreshed : List Device) :
    (r.applyRefresh refreshed).1.devices.Perm (replaceFrom refreshed [] r.devices) :=
  perm_commit _

end Registry

end MinerFleet
