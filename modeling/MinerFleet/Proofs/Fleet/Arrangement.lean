/-
How a fleet is arranged, for each field and either way.

* `Device.Tells` — what a record says in a field, by which records can be ordered;
* `SortSpec.lacks` — a record does not have the field that decides;
* `SortSpec.GoesByField` — the order of two records is that of what they say in the field;
* `SortSpec.turned` — the same field in the other direction;
* `SortSpec.stablySorted_sort` — a fleet in order is a stable arrangement of the fleet;
* `SortSpec.sort_eq_append`, `SortSpec.sort_turned` — what lacks the field stands behind the rest,
  and the other direction is the order read from its end.

There is only one stable arrangement, so each of the last two follows from looking at the list that
it names: it is in order, and what may stand either way is as it was.
-/
import MinerFleet.Proofs.Fleet.Sorting

namespace MinerFleet

open Std (TransCmp OrientedCmp ReflCmp)

/-- What a record says in a field. Every record has an address and a name for people; a difficulty
that is a text counts if it says a number. -/
inductive Device.Tells (d : Device) : SortField → SortKey → Prop
  | address : d.Tells .address (.address d.address)
  | displayName : d.Tells .displayName (.text d.shortName)
  | asicModel {s} (h : d.asicModel = some s) : d.Tells .asicModel (.text s)
  | deviceModel {s} (h : d.deviceModel = some s) : d.Tells .deviceModel (.text s)
  | version {s} (h : d.version = some s) : d.Tells .version (.text s)
  | asicCount {n} (h : d.asicCount = some n) : d.Tells .asicCount (.number (.ofNat n.toNat))
  | hashRate {x} (h : d.hashRate = some x) : d.Tells .hashRate (.number x)
  | power {x} (h : d.power = some x) : d.Tells .power (.number x)
  | voltage {x} (h : d.voltage = some x) : d.Tells .voltage (.number x)
  | temp {x} (h : d.temp = some x) : d.Tells .temp (.number x)
  | bestDiff {b x} (h : d.bestDiff = some b) (hx : b.value? = some x) :
      d.Tells .bestDiff (.number x)
  | bestSessionDiff {b x} (h : d.bestSessionDiff = some b) (hx : b.value? = some x) :
      d.Tells .bestSessionDiff (.number x)
  | poolDifficulty {x} (h : d.poolDifficulty = some x) : d.Tells .poolDifficulty (.number x)
  | sharesAccepted {n} (h : d.sharesAccepted = some n) :
      d.Tells .sharesAccepted (.number (.ofNat n.toNat))
  | uptimeSeconds {n} (h : d.uptimeSeconds = some n) :
      d.Tells .uptimeSeconds (.number (.ofNat n.toNat))
  | frequency {x} (h : d.frequency = some x) : d.Tells .frequency (.number x)

theorem Device.Tells.ofDevice_eq {d : Device} {field : SortField} {key : SortKey}
    (h : d.Tells field key) : SortKey.ofDevice d field = key := by
  cases h <;>
    simp_all only [SortKey.ofDevice, SortKey.ofText, SortKey.ofNumber, Device.bestDiffValue,
      Option.elim_some, Option.map_some, Option.bind_some]

theorem Device.Tells.not_missing {d : Device} {field : SortField} : ¬d.Tells field .missing :=
  nofun

namespace SortSpec

/-- A record does not have the field that decides: nothing stands there, or a difficulty that says
no number. -/
def lacks (spec : SortSpec) (d : Device) : Bool :=
  match spec.field with
  | .address | .displayName => false
  | .asicModel => d.asicModel.isNone
  | .deviceModel => d.deviceModel.isNone
  | .version => d.version.isNone
  | .asicCount => d.asicCount.isNone
  | .hashRate => d.hashRate.isNone
  | .power => d.power.isNone
  | .voltage => d.voltage.isNone
  | .temp => d.temp.isNone
  | .bestDiff => d.bestDiff.all fun b => b.value?.isNone
  | .bestSessionDiff => d.bestSessionDiff.all fun b => b.value?.isNone
  | .poolDifficulty => d.poolDifficulty.isNone
  | .sharesAccepted => d.sharesAccepted.isNone
  | .uptimeSeconds => d.uptimeSeconds.isNone
  | .frequency => d.frequency.isNone

/-- The order of two records is that of what they say in the field: of their addresses, of texts or
of numbers, either way; and one that lacks the field stands behind one that has it. -/
structure GoesByField (spec : SortSpec) : Prop where
  has_iff d : spec.lacks d = false ↔ ∃ key, d.Tells spec.field key
  addresses {a b s t} : a.Tells spec.field (.address s) → b.Tells spec.field (.address t) →
    spec.compare a b = spec.direction.along compareAddresses s t
  texts {a b s t} : a.Tells spec.field (.text s) → b.Tells spec.field (.text t) →
    spec.compare a b = spec.direction.along Text.naturalCompare s t
  numbers {a b x y} : a.Tells spec.field (.number x) → b.Tells spec.field (.number y) →
    spec.compare a b = spec.direction.along (compareOn floatRank) x y
  lacking {a b} : spec.lacks a = true → spec.compare a b = if spec.lacks b then .eq else .gt

/-- The same field in the other direction. -/
def turned (spec : SortSpec) : SortSpec :=
  spec.select spec.field

variable {spec : SortSpec} {a b : Device}

theorem turned_eq : spec.turned = ⟨spec.field, spec.direction.reversed⟩ :=
  if_pos rfl

/-! ### Records that have the field, and records that lack it -/

theorem says_of_all_eq_false {o : Option Difficulty} (h : (o.all fun b => b.value?.isNone) = false) :
    ∃ b, o = some b ∧ ∃ x, b.value? = some x := by
  cases o with
  | none => cases h
  | some b => exact ⟨b, rfl, Option.isSome_iff_exists.mp (Option.isNone_eq_false_iff.mp h)⟩

theorem bind_value?_of_all {o : Option Difficulty} (h : (o.all fun b => b.value?.isNone) = true) :
    o.bind Difficulty.value? = none := by
  cases o with
  | none => rfl
  | some b => exact Option.isNone_iff_eq_none.mp h

/-- A record has the field if it says something there. -/
theorem lacks_eq_false_iff {d : Device} :
    spec.lacks d = false ↔ ∃ key, d.Tells spec.field key := by
  rcases spec with ⟨field, direction⟩
  constructor
  · intro h
    cases field
    case address => exact ⟨_, .address⟩
    case displayName => exact ⟨_, .displayName⟩
    case bestDiff =>
      obtain ⟨b, hb, x, hx⟩ := says_of_all_eq_false h
      exact ⟨_, .bestDiff hb hx⟩
    case bestSessionDiff =>
      obtain ⟨b, hb, x, hx⟩ := says_of_all_eq_false h
      exact ⟨_, .bestSessionDiff hb hx⟩
    all_goals
      obtain ⟨x, hx⟩ := Option.isSome_iff_exists.mp (Option.isNone_eq_false_iff.mp h)
      exact ⟨_, by constructor; exact hx⟩
  · rintro ⟨key, h⟩
    cases h <;> simp_all only [lacks, Option.isNone_some, Option.all_some]

theorem ofDevice_of_lacks {d : Device} (h : spec.lacks d = true) :
    SortKey.ofDevice d spec.field = .missing := by
  rcases spec with ⟨field, direction⟩
  cases field
  case address | displayName => cases h
  case bestDiff | bestSessionDiff => exact congrArg SortKey.ofNumber (bind_value?_of_all h)
  case asicCount | sharesAccepted | uptimeSeconds =>
    exact congrArg (fun o => SortKey.ofNumber (Option.map _ o)) (Option.isNone_iff_eq_none.mp h)
  case asicModel | deviceModel | version =>
    exact congrArg SortKey.ofText (Option.isNone_iff_eq_none.mp h)
  all_goals exact congrArg SortKey.ofNumber (Option.isNone_iff_eq_none.mp h)

theorem compare_of_tells {key key' : SortKey} (ha : a.Tells spec.field key)
    (hb : b.Tells spec.field key') :
    spec.compare a b = spec.direction.along SortKey.compare key key' := by
  rw [compare, ha.ofDevice_eq, hb.ofDevice_eq]
  cases key
  case missing => exact absurd ha Device.Tells.not_missing
  all_goals
    cases key'
    case missing => exact absurd hb Device.Tells.not_missing
    all_goals cases spec.direction <;> rfl

theorem compare_of_lacks (ha : spec.lacks a = true) :
    spec.compare a b = if spec.lacks b then .eq else .gt := by
  rw [compare, ofDevice_of_lacks ha]
  cases hb : spec.lacks b with
  | true => rw [ofDevice_of_lacks hb]; rfl
  | false =>
    obtain ⟨key, h⟩ := lacks_eq_false_iff.mp hb
    rw [h.ofDevice_eq]
    cases key
    case missing => exact absurd h Device.Tells.not_missing
    all_goals rfl

theorem compare_of_lacks_right (ha : spec.lacks a = false) (hb : spec.lacks b = true) :
    spec.compare a b = .lt := by
  have hswap : spec.compare a b = (spec.compare b a).swap := OrientedCmp.eq_swap
  rw [hswap, compare_of_lacks hb, ha]
  rfl

theorem goesByField (spec : SortSpec) : spec.GoesByField where
  has_iff _ := lacks_eq_false_iff
  addresses ha hb := compare_of_tells ha hb
  texts ha hb := compare_of_tells ha hb
  numbers ha hb := compare_of_tells ha hb
  lacking := compare_of_lacks

/-- Records that may stand either way both have the field, or both lack it. -/
theorem lacks_eq_of_compare (h : spec.compare a b = .eq) : spec.lacks a = spec.lacks b := by
  cases ha : spec.lacks a with
  | true =>
    rw [compare_of_lacks ha] at h
    cases hb : spec.lacks b with
    | true => rfl
    | false =>
      rw [hb] at h
      cases h
  | false =>
    cases hb : spec.lacks b with
    | true =>
      rw [compare_of_lacks_right ha hb] at h
      cases h
    | false => rfl

/-! ### The other direction -/

theorem lacks_turned (spec : SortSpec) (d : Device) : spec.turned.lacks d = spec.lacks d := by
  rw [turned_eq]
  rfl

/-- Among records that have the field, the other direction is the reverse. -/
theorem compare_turned (ha : spec.lacks a = false) (hb : spec.lacks b = false) :
    spec.turned.compare a b = (spec.compare a b).swap := by
  obtain ⟨key, hkey⟩ := lacks_eq_false_iff.mp ha
  obtain ⟨key', hkey'⟩ := lacks_eq_false_iff.mp hb
  have hturned : (⟨spec.field, spec.direction.reversed⟩ : SortSpec).compare a b =
      spec.direction.reversed.along SortKey.compare key key' := compare_of_tells hkey hkey'
  rw [turned_eq, hturned, compare_of_tells hkey hkey']
  cases spec.direction with
  | asc => rfl
  | desc => exact Ordering.swap_swap.symm

/-- Either way, the same records may stand either way. -/
theorem compare_turned_eq_iff (spec : SortSpec) (a b : Device) :
    spec.turned.compare a b = .eq ↔ spec.compare a b = .eq := by
  by_cases h : spec.lacks a = spec.lacks b
  · cases ha : spec.lacks a with
    | true =>
      rw [compare_of_lacks ((lacks_turned spec a).trans ha), compare_of_lacks ha, lacks_turned]
    | false => rw [compare_turned ha (h ▸ ha), Ordering.swap_eq_eq]
  · have hturned : spec.turned.lacks a ≠ spec.turned.lacks b := by
      rwa [lacks_turned, lacks_turned]
    exact ⟨fun he => absurd (lacks_eq_of_compare he) hturned,
      fun he => absurd (lacks_eq_of_compare he) h⟩

theorem alike_turned (spec : SortSpec) (x : Device) (ds : List Device) :
    alike spec.turned.compare x ds = alike spec.compare x ds :=
  List.filter_congr fun d _ => Bool.eq_iff_iff.mpr (by
    rw [beq_iff_eq, beq_iff_eq, compare_turned_eq_iff])

/-! ### Arrangements -/

/-- A fleet in order is a stable arrangement of the fleet. -/
theorem stablySorted_sort (spec : SortSpec) (ds : List Device) :
    StablySorted spec.compare ds (spec.sort ds) where
  perm := spec.perm_sort ds
  ordered := spec.sorted_sort ds
  stable x := by
    -- What is like `x` is in order by itself, and so the sort keeps it as it is.
    have hwithin : (alike spec.compare x ds).Pairwise fun a b => spec.mayPrecede a b = true := by
      refine List.pairwise_of_forall_mem_list fun a ha b hb => mayPrecede_iff.mpr ?_
      rw [← TransCmp.congr_left (mem_alike.mp ha).2, (mem_alike.mp hb).2]
      decide
    have hsub : (alike spec.compare x ds).Sublist (spec.sort ds) := by
      rw [sort, stableSort_eq]
      exact List.sublist_insertionSort hwithin List.filter_sublist
    have hkept : (alike spec.compare x (alike spec.compare x ds)).Sublist
        (alike spec.compare x (spec.sort ds)) := hsub.filter _
    rw [alike_alike] at hkept
    exact (hkept.eq_of_length ((spec.perm_sort ds).filter _).length_eq.symm).symm

/-- The records that lack the field stand behind all others, as they were. -/
theorem sort_eq_append (spec : SortSpec) (ds : List Device) :
    spec.sort ds = spec.sort (ds.filter fun d => !spec.lacks d) ++ ds.filter spec.lacks := by
  refine (spec.stablySorted_sort ds).unique ⟨?_, ?_, fun x => ?_⟩
  · refine ((spec.perm_sort _).append_right _).trans ?_
    exact List.perm_append_comm.trans (List.filter_append_perm spec.lacks ds)
  · refine List.pairwise_append.mpr ⟨spec.sorted_sort _, ?_, fun a ha b hb => ?_⟩
    · refine List.pairwise_of_forall_mem_list fun a ha b hb => ?_
      rw [compare_of_lacks (List.mem_filter.mp ha).2, if_pos (List.mem_filter.mp hb).2]
      decide
    · have hgiven := (List.mem_filter.mp ((spec.perm_sort _).mem_iff.mp ha)).2
      rw [compare_of_lacks_right (by simpa using hgiven) (List.mem_filter.mp hb).2]
      decide
  · rw [alike_append, (spec.stablySorted_sort _).stable x]
    -- What is like `x` is on one side, as it has the field or lacks it together with `x`.
    cases hx : spec.lacks x with
    | true =>
      have hlike (d : Device) (hd : spec.compare x d = .eq) : spec.lacks d = true :=
        (lacks_eq_of_compare hd).symm.trans hx
      rw [alike_filter hlike, alike_filter_eq_nil fun d hd => by rw [hlike d hd, Bool.not_true],
        List.nil_append]
    | false =>
      have hlike (d : Device) (hd : spec.compare x d = .eq) : spec.lacks d = false :=
        (lacks_eq_of_compare hd).symm.trans hx
      rw [alike_filter_eq_nil hlike, alike_filter fun d hd => by rw [hlike d hd, Bool.not_false],
        List.append_nil]

section

variable {ds : List Device} (h : ∀ d ∈ ds, spec.lacks d = false)
include h

/-- If no record lacks the field, a fleet in the other direction is what comes of this one when the
fleet is read from its end before and after. -/
theorem sort_turned : spec.turned.sort ds = (spec.sort ds.reverse).reverse := by
  refine (spec.turned.stablySorted_sort ds).unique ⟨?_, ?_, fun x => ?_⟩
  · exact ((List.reverse_perm _).trans (spec.perm_sort _)).trans (List.reverse_perm _)
  · refine List.pairwise_reverse.mpr ((spec.sorted_sort _).imp_of_mem fun ha hb hab => ?_)
    have hmem {d : Device} (hd : d ∈ spec.sort ds.reverse) : spec.lacks d = false :=
      h d (List.mem_reverse.mp ((spec.perm_sort _).mem_iff.mp hd))
    rwa [compare_turned (hmem hb) (hmem ha), ← OrientedCmp.eq_swap]
  · rw [alike_turned, alike_turned, alike, List.filter_reverse]
    show (alike spec.compare x (spec.sort ds.reverse)).reverse = _
    rw [(spec.stablySorted_sort ds.reverse).stable x, alike, List.filter_reverse,
      List.reverse_reverse]
    rfl

/-- If no record lacks the field, the other direction is this one read from its end, but for what
may stand either way. -/
theorem alike_sort_turned :
    List.Forall₂ (fun a b => spec.compare a b = .eq) (spec.turned.sort ds)
      (spec.sort ds).reverse := by
  rw [sort_turned h]
  refine List.forall₂_reverse_iff.mpr (alike_of_ordered (spec.sorted_sort _) (spec.sorted_sort _)
    fun x => ?_)
  rw [(spec.stablySorted_sort _).stable, (spec.stablySorted_sort _).stable, alike,
    List.filter_reverse, List.length_reverse]
  rfl

end

/-- The order of a fleet is sound, for each field and either way. It goes by what records say in the
field. Any two records are comparable, consistently with all others. A fleet in order has the same
records, each of which may precede those behind it, and records that may stand either way are as
they were. Those that lack the field stand at the end, whichever way the order goes. Of those that
have the field, each direction is the reverse of the other, and a fleet of them is reversed, but for
records that may stand either way. -/
theorem fleet_order_is_sound (spec : SortSpec) :
    spec.GoesByField ∧
    TotalPreorder spec.compare ∧
    (∀ ds, StablySorted spec.compare ds (spec.sort ds)) ∧
    (∀ ds, spec.sort ds =
      spec.sort (ds.filter fun d => !spec.lacks d) ++ ds.filter spec.lacks) ∧
    (∀ a b, spec.lacks a = false → spec.lacks b = false →
      spec.turned.compare a b = (spec.compare a b).swap) ∧
    ∀ ds : List Device, (∀ d ∈ ds, spec.lacks d = false) →
      spec.turned.sort ds = (spec.sort ds.reverse).reverse ∧
      List.Forall₂ (fun a b => spec.compare a b = .eq) (spec.turned.sort ds)
        (spec.sort ds).reverse :=
  ⟨spec.goesByField, totalPreorder_of_transCmp, spec.stablySorted_sort, spec.sort_eq_append,
    fun _ _ => compare_turned, fun _ h => ⟨sort_turned h, alike_sort_turned h⟩⟩

/-- Three miners. The second does not tell its version nor its hash rate, and the best difficulty of
the third is a text that says no number. -/
def threeMiners : List Device :=
  [{ Device.at_ "10.0.0.2" "10.0.0.2" with
      version := some "v2.10.0", hashRate := some 500, bestDiff := some (.text "4.29G") },
    { Device.at_ "10.0.0.3" "10.0.0.3" with bestDiff := some (.number 12000) },
    { Device.at_ "10.0.0.4" "10.0.0.4" with
      version := some "v2.9.0", hashRate := some 90, bestDiff := some (.text "none") }]

/-- By version, by hash rate and by best difficulty, the miner that does not tell it stands last
either way, and the others go by what they tell. -/
theorem three_miners_in_order :
    (∀ direction,
      (⟨.hashRate, direction⟩ : SortSpec).compare (threeMiners[2]) (threeMiners[0]) =
        direction.along (compareOn floatRank) 90 500) ∧
    ((⟨.version, .asc⟩ : SortSpec).sort threeMiners).map Device.address =
      ["10.0.0.4", "10.0.0.2", "10.0.0.3"] ∧
    ((⟨.version, .desc⟩ : SortSpec).sort threeMiners).map Device.address =
      ["10.0.0.2", "10.0.0.4", "10.0.0.3"] ∧
    ((⟨.hashRate, .asc⟩ : SortSpec).sort threeMiners).map Device.address =
      ["10.0.0.4", "10.0.0.2", "10.0.0.3"] ∧
    ((⟨.hashRate, .desc⟩ : SortSpec).sort threeMiners).map Device.address =
      ["10.0.0.2", "10.0.0.4", "10.0.0.3"] ∧
    ((⟨.bestDiff, .asc⟩ : SortSpec).sort threeMiners).map Device.address =
      ["10.0.0.3", "10.0.0.2", "10.0.0.4"] ∧
    ((⟨.bestDiff, .desc⟩ : SortSpec).sort threeMiners).map Device.address =
      ["10.0.0.2", "10.0.0.3", "10.0.0.4"] := by
  -- One order is enough for both directions: the rest of a fleet is read from its end.
  have hasc (field : SortField) :
      (⟨field, .asc⟩ : SortSpec).sort threeMiners =
        (⟨field, .asc⟩ : SortSpec).sort
            (threeMiners.filter fun d => !(⟨field, .asc⟩ : SortSpec).lacks d) ++
          threeMiners.filter (⟨field, .asc⟩ : SortSpec).lacks :=
    (fleet_order_is_sound ⟨field, .asc⟩).2.2.2.1 threeMiners
  have hdesc (field : SortField) :
      (⟨field, .desc⟩ : SortSpec).sort threeMiners =
        ((⟨field, .asc⟩ : SortSpec).sort
            (threeMiners.filter fun d => !(⟨field, .asc⟩ : SortSpec).lacks d).reverse).reverse ++
          threeMiners.filter (⟨field, .asc⟩ : SortSpec).lacks := by
    obtain ⟨-, -, -, -, -, hturned⟩ := fleet_order_is_sound ⟨field, .asc⟩
    obtain ⟨-, -, -, hlast, -⟩ := fleet_order_is_sound ⟨field, .desc⟩
    have hreversed := (hturned (threeMiners.filter fun d => !(⟨field, .asc⟩ : SortSpec).lacks d)
      fun d hd => by simpa using (List.mem_filter.mp hd).2).1
    rw [turned_eq] at hreversed
    exact (hlast threeMiners).trans (congrArg (· ++ _) hreversed)
  refine ⟨fun direction => ?_, ?_, ?_, ?_, ?_, ?_, ?_⟩
  · exact (fleet_order_is_sound ⟨.hashRate, direction⟩).1.numbers (.hashRate rfl) (.hashRate rfl)
  · rw [hasc]
    decide +kernel
  · rw [hdesc]
    decide +kernel
  · rw [hasc]
    decide +kernel
  · rw [hdesc]
    decide +kernel
  · rw [hasc]
    decide +kernel
  · rw [hdesc]
    decide +kernel

end SortSpec

end MinerFleet
