/-
The order of a fleet is an order, for each of its fields and either way.

* `missingLast` — the order of values in which those that are missing stand behind all others;
* `Direction.along` — an order, or this order turned around;
* `SortSpec.Sorted` — a list of records in order.

Every comparison is total and transitive (`Std.TransCmp`): by addresses, by names, by numbers, and
so by each field. `sorted_sort` puts a list into order, and one that is in order stays as it is
(`sort_of_sorted`).
-/
import Mathlib.Data.List.Sort
import MinerFleet.Fleet.Order

namespace MinerFleet

open Std (TransCmp OrientedCmp)

/-! ### Comparisons -/

section Comparisons

variable {α β : Type} {cmp : α → α → Ordering}

theorem transCmp_on [TransCmp cmp] (f : β → α) : TransCmp fun a b => cmp (f a) (f b) where
  eq_swap := OrientedCmp.eq_swap
  isLE_trans := TransCmp.isLE_trans

/-- Values in their order, and what is missing behind them all. -/
def missingLast (cmp : α → α → Ordering) : Option α → Option α → Ordering
  | none, none => .eq
  | none, some _ => .gt
  | some _, none => .lt
  | some a, some b => cmp a b

instance [TransCmp cmp] : TransCmp (missingLast cmp) where
  eq_swap {a b} := by
    cases a <;> cases b
    case some.some a b => exact (OrientedCmp.eq_swap : cmp a b = _)
    all_goals rfl
  isLE_trans {a b c} hab hbc := by
    cases c with
    | none => cases a <;> rfl
    | some c =>
      -- Nothing that is missing stands before a value.
      cases b with
      | none => cases hbc
      | some b =>
        cases a with
        | none => cases hab
        | some a => exact (TransCmp.isLE_trans hab hbc : (cmp a c).isLE = true)

/-- An order, or this order turned around. -/
def Direction.along (d : Direction) (cmp : α → α → Ordering) (a b : α) : Ordering :=
  match d with
  | .asc => cmp a b
  | .desc => (cmp a b).swap

instance [TransCmp cmp] (d : Direction) : TransCmp (d.along cmp) := by
  cases d with
  | asc => exact inferInstanceAs (TransCmp cmp)
  | desc =>
    have h : Direction.along .desc cmp = fun a b => cmp b a := by
      funext a b
      exact OrientedCmp.eq_swap.symm
    rw [h]
    infer_instance

end Comparisons

instance : TransCmp Text.naturalCompare :=
  inferInstanceAs (TransCmp (compareLex (compareOn Text.foldedKey) compare))

/-- What decides the place of an address among those that are not IPv4 addresses. -/
def nameKey (s : String) : String :=
  if (Ipv4.ofText? s).isSome then "" else s

theorem compareAddresses_eq (a b : String) :
    compareAddresses a b =
      (missingLast (compareOn Ipv4.value) (Ipv4.ofText? a) (Ipv4.ofText? b)).then
        (Text.naturalCompare (nameKey a) (nameKey b)) := by
  have hself : Text.naturalCompare "" "" = .eq := Std.ReflCmp.compare_self
  rw [compareAddresses, nameKey, nameKey]
  cases Ipv4.ofText? a <;> cases Ipv4.ofText? b
  · rfl
  · rfl
  · rfl
  · simp only [missingLast, compareOn, Option.isSome_some, if_true, hself, Ordering.then_eq]

instance : TransCmp compareAddresses := by
  have h : compareAddresses = compareLex
      (fun a b => missingLast (compareOn Ipv4.value) (Ipv4.ofText? a) (Ipv4.ofText? b))
      (fun a b => Text.naturalCompare (nameKey a) (nameKey b)) := by
    funext a b
    exact compareAddresses_eq a b
  have hnumbers : TransCmp fun a b =>
      missingLast (compareOn Ipv4.value) (Ipv4.ofText? a) (Ipv4.ofText? b) := transCmp_on _
  have hnames : TransCmp fun a b => Text.naturalCompare (nameKey a) (nameKey b) := transCmp_on _
  rw [h]
  infer_instance

/-! ### Records -/

/-- A field of a record is an address, a number or a text, and numbers and texts may be missing. -/
theorem SortKey.ofDevice_cases (field : SortField) :
    (∀ d, ofDevice d field = .address d.address) ∨
    (∃ f : Device → Option Float, ∀ d, ofDevice d field = ofNumber (f d)) ∨
    (∃ f : Device → Option String, ∀ d, ofDevice d field = ofText (f d)) := by
  cases field with
  | address => exact .inl fun _ => rfl
  | displayName => exact .inr (.inr ⟨fun d => some d.shortName, fun _ => rfl⟩)
  | asicModel => exact .inr (.inr ⟨_, fun _ => rfl⟩)
  | deviceModel => exact .inr (.inr ⟨_, fun _ => rfl⟩)
  | version => exact .inr (.inr ⟨_, fun _ => rfl⟩)
  | asicCount => exact .inr (.inl ⟨_, fun _ => rfl⟩)
  | hashRate => exact .inr (.inl ⟨_, fun _ => rfl⟩)
  | power => exact .inr (.inl ⟨_, fun _ => rfl⟩)
  | voltage => exact .inr (.inl ⟨_, fun _ => rfl⟩)
  | temp => exact .inr (.inl ⟨_, fun _ => rfl⟩)
  | bestDiff => exact .inr (.inl ⟨_, fun _ => rfl⟩)
  | bestSessionDiff => exact .inr (.inl ⟨_, fun _ => rfl⟩)
  | poolDifficulty => exact .inr (.inl ⟨_, fun _ => rfl⟩)
  | sharesAccepted => exact .inr (.inl ⟨_, fun _ => rfl⟩)
  | uptimeSeconds => exact .inr (.inl ⟨_, fun _ => rfl⟩)
  | frequency => exact .inr (.inl ⟨_, fun _ => rfl⟩)

namespace SortSpec

variable {spec : SortSpec}

theorem compare_eq_of_address (h : ∀ d, SortKey.ofDevice d spec.field = .address d.address)
    (a b : Device) :
    spec.compare a b = spec.direction.along compareAddresses a.address b.address := by
  rw [compare, h, h]
  cases spec.direction <;> rfl

theorem compare_eq_of_number {f : Device → Option Float}
    (h : ∀ d, SortKey.ofDevice d spec.field = .ofNumber (f d)) (a b : Device) :
    spec.compare a b = missingLast (spec.direction.along (compareOn floatRank)) (f a) (f b) := by
  rw [compare, h, h]
  cases f a <;> cases f b <;> cases spec.direction <;> rfl

theorem compare_eq_of_text {f : Device → Option String}
    (h : ∀ d, SortKey.ofDevice d spec.field = .ofText (f d)) (a b : Device) :
    spec.compare a b = missingLast (spec.direction.along Text.naturalCompare) (f a) (f b) := by
  rw [compare, h, h]
  cases f a <;> cases f b <;> cases spec.direction <;> rfl

/-- The order of a fleet is total and transitive, for each field and either way. -/
instance (spec : SortSpec) : TransCmp spec.compare := by
  rcases SortKey.ofDevice_cases spec.field with h | ⟨f, h⟩ | ⟨f, h⟩
  · rw [funext₂ (compare_eq_of_address h)]
    exact transCmp_on _
  · rw [funext₂ (compare_eq_of_number h)]
    exact transCmp_on _
  · rw [funext₂ (compare_eq_of_text h)]
    exact transCmp_on _

/-- No record stands before one that has to stand before it. -/
def Sorted (spec : SortSpec) (ds : List Device) : Prop :=
  ds.Pairwise fun a b => spec.compare a b ≠ .gt

theorem mayPrecede_iff {a b : Device} : spec.mayPrecede a b = true ↔ spec.compare a b ≠ .gt := by
  rw [mayPrecede, bne_iff_ne]

end SortSpec

/-! ### Sorting -/

theorem insertSorted_eq {α : Type} (le : α → α → Bool) (a : α) (bs : List α) :
    insertSorted le a bs = bs.orderedInsert (fun a b => le a b = true) a := by
  induction bs with
  | nil => rfl
  | cons b bs ih => rw [insertSorted, List.orderedInsert, ih]

/-- The stable sort is an insertion sort. -/
theorem stableSort_eq {α : Type} (le : α → α → Bool) (as : List α) :
    stableSort le as = as.insertionSort fun a b => le a b = true := by
  induction as with
  | nil => rfl
  | cons a as ih =>
    rw [List.insertionSort_cons, ← ih, ← insertSorted_eq]
    rfl

namespace SortSpec

variable (spec : SortSpec)

instance : Std.Total fun a b => spec.mayPrecede a b = true where
  total a b := by
    have hswap : spec.compare b a = (spec.compare a b).swap := OrientedCmp.eq_swap
    rw [mayPrecede_iff, mayPrecede_iff, hswap]
    cases spec.compare a b <;> decide

instance : IsTrans Device fun a b => spec.mayPrecede a b = true where
  trans a b c hab hbc := by
    rw [mayPrecede_iff] at *
    rw [Ne, Ordering.ne_gt_iff_isLE] at *
    exact TransCmp.isLE_trans hab hbc

/-- A fleet that was put into order is in order. -/
theorem sorted_sort (ds : List Device) : spec.Sorted (spec.sort ds) := by
  rw [sort, stableSort_eq]
  exact (List.pairwise_insertionSort _ ds).imp mayPrecede_iff.mp

variable {spec}

/-- A fleet that is in order stays as it is. -/
theorem sort_of_sorted {ds : List Device} (h : spec.Sorted ds) : spec.sort ds = ds := by
  rw [sort, stableSort_eq]
  exact List.Pairwise.insertionSort_eq (h.imp mayPrecede_iff.mpr)

end SortSpec

end MinerFleet
