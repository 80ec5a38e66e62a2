/-
What it is to be in order.

* `TotalPreorder`, `TotalOrder` — a comparison that puts things into an order, and one that puts
  each thing into a place of its own;
* `StablySorted` — a list in order, in which what may stand either way is as it was before.

There is only one list that a list can be stably sorted to (`StablySorted.unique`), and two ways
to put the same things into order differ only by what may stand either way (`alike_of_ordered`).
-/
import Mathlib.Data.List.Forall2
import MinerFleet.Proofs.Fleet.Order

namespace MinerFleet

open Std (TransCmp OrientedCmp ReflCmp LawfulEqCmp)

variable {α : Type} {cmp : α → α → Ordering}

/-! ### Comparisons -/

/-- A comparison by which any two things have an order; they may be different and yet stand either
way. -/
structure TotalPreorder (cmp : α → α → Ordering) : Prop where
  refl a : cmp a a = .eq
  reverse a b : cmp b a = (cmp a b).swap
  total a b : cmp a b ≠ .gt ∨ cmp b a ≠ .gt
  trans a b c : cmp a b ≠ .gt → cmp b c ≠ .gt → cmp a c ≠ .gt

/-- A comparison by which any two different things have one order. -/
structure TotalOrder (cmp : α → α → Ordering) : Prop extends TotalPreorder cmp where
  antisymm a b : cmp a b ≠ .gt → cmp b a ≠ .gt → a = b
  eq_iff a b : cmp a b = .eq ↔ a = b

theorem totalPreorder_of_transCmp [TransCmp cmp] : TotalPreorder cmp where
  refl _ := ReflCmp.compare_self
  reverse _ _ := OrientedCmp.eq_swap
  total a b := by
    have hswap : cmp b a = (cmp a b).swap := OrientedCmp.eq_swap
    rw [hswap]
    cases cmp a b <;> decide
  trans a b c hab hbc := by
    rw [Ne, Ordering.ne_gt_iff_isLE] at *
    exact TransCmp.isLE_trans hab hbc

theorem totalOrder_of_eq [TransCmp cmp] (h : ∀ a b, cmp a b = .eq → a = b) : TotalOrder cmp where
  toTotalPreorder := totalPreorder_of_transCmp
  antisymm a b hab hba := by
    rw [Ne, Ordering.ne_gt_iff_isLE] at hab hba
    exact h a b (OrientedCmp.isLE_antisymm hab hba)
  eq_iff a b := ⟨h a b, fun hab => hab ▸ ReflCmp.compare_self⟩

/-! ### Sorted lists -/

/-- No thing stands in front of one that has to stand in front of it. -/
def Ordered (cmp : α → α → Ordering) (as : List α) : Prop :=
  as.Pairwise fun a b => cmp a b ≠ .gt

/-- The things of a list that may change places with another thing. -/
def alike (cmp : α → α → Ordering) (x : α) (as : List α) : List α :=
  as.filter fun a => cmp x a == .eq

/-- A list in order, in which what may stand either way is as it was before. -/
structure StablySorted (cmp : α → α → Ordering) (as sorted : List α) : Prop where
  perm : sorted.Perm as
  ordered : Ordered cmp sorted
  stable x : alike cmp x sorted = alike cmp x as

theorem mem_alike {x a : α} {as : List α} : a ∈ alike cmp x as ↔ a ∈ as ∧ cmp x a = .eq := by
  rw [alike, List.mem_filter, beq_iff_eq]

theorem alike_cons_of_eq {x a : α} (h : cmp x a = .eq) (as : List α) :
    alike cmp x (a :: as) = a :: alike cmp x as :=
  List.filter_cons_of_pos (beq_iff_eq.mpr h)

theorem alike_cons_of_ne {x a : α} (h : cmp x a ≠ .eq) (as : List α) :
    alike cmp x (a :: as) = alike cmp x as :=
  List.filter_cons_of_neg (mt beq_iff_eq.mp h)

theorem alike_alike (x : α) (as : List α) : alike cmp x (alike cmp x as) = alike cmp x as :=
  List.filter_eq_self.mpr fun _ ha => (List.mem_filter.mp ha).2

theorem alike_append (x : α) (as bs : List α) :
    alike cmp x (as ++ bs) = alike cmp x as ++ alike cmp x bs :=
  List.filter_append ..

theorem alike_filter {q : α → Bool} {x : α} (h : ∀ a, cmp x a = .eq → q a = true) (as : List α) :
    alike cmp x (as.filter q) = alike cmp x as := by
  rw [alike, List.filter_filter]
  refine List.filter_congr fun a _ => ?_
  cases hxa : cmp x a == .eq with
  | true => rw [h a (beq_iff_eq.mp hxa), Bool.and_self]
  | false => rfl

theorem alike_filter_eq_nil {q : α → Bool} {x : α} (h : ∀ a, cmp x a = .eq → q a = false)
    (as : List α) : alike cmp x (as.filter q) = [] := by
  refine List.filter_eq_nil_iff.mpr fun a ha => ?_
  rw [beq_iff_eq]
  intro hxa
  exact absurd (List.mem_filter.mp ha).2 (by rw [h a hxa]; decide)

section

variable [TransCmp cmp]

theorem alike_cons_self (x : α) (as : List α) : alike cmp x (x :: as) = x :: alike cmp x as :=
  alike_cons_of_eq ReflCmp.compare_self as

/-- What comes first in an order stands in front of all that has its like in the list. -/
theorem Ordered.isLE_head {a x : α} {as : List α} (h : Ordered cmp (a :: as))
    (hx : alike cmp x (a :: as) ≠ []) : (cmp a x).isLE := by
  obtain ⟨b, hb⟩ := List.exists_mem_of_ne_nil _ hx
  obtain ⟨hmem, hxb⟩ := mem_alike.mp hb
  rw [TransCmp.congr_right hxb]
  rcases List.mem_cons.mp hmem with rfl | htail
  · have hself : cmp b b = .eq := ReflCmp.compare_self
    rw [hself]
    rfl
  · exact Ordering.ne_gt_iff_isLE.mp (List.rel_of_pairwise_cons h htail)

/-- What comes first in two orders may change places if each has its like in the other list. -/
theorem compare_heads {a b : α} {as bs : List α} (ha : Ordered cmp (a :: as))
    (hb : Ordered cmp (b :: bs)) (hab : alike cmp a (b :: bs) ≠ [])
    (hba : alike cmp b (a :: as) ≠ []) : cmp a b = .eq :=
  OrientedCmp.isLE_antisymm (ha.isLE_head hba) (hb.isLE_head hab)

theorem eq_nil_of_alike {as : List α} (h : ∀ x, (alike cmp x as).length = 0) : as = [] := by
  cases as with
  | nil => rfl
  | cons a as =>
    have ha := h a
    rw [alike_cons_self] at ha
    cases ha

/-- Two orders of the same things differ only by what may stand either way. -/
theorem alike_of_ordered {as bs : List α} (ha : Ordered cmp as) (hb : Ordered cmp bs)
    (h : ∀ x, (alike cmp x as).length = (alike cmp x bs).length) :
    List.Forall₂ (fun a b => cmp a b = .eq) as bs := by
  induction as generalizing bs with
  | nil =>
    rw [eq_nil_of_alike fun x => (h x).symm]
    exact .nil
  | cons a as ih =>
    cases bs with
    | nil => cases eq_nil_of_alike h
    | cons b bs =>
      have hab : cmp a b = .eq := by
        refine compare_heads ha hb ?_ ?_
        · rw [← List.length_pos_iff, ← h, alike_cons_self]
          exact Nat.succ_pos _
        · rw [← List.length_pos_iff, h, alike_cons_self]
          exact Nat.succ_pos _
      refine .cons hab (ih ha.of_cons hb.of_cons fun x => ?_)
      have hx := h x
      have hxab : cmp x a = cmp x b := TransCmp.congr_right hab
      by_cases hxa : cmp x a = .eq
      · rw [alike_cons_of_eq hxa, alike_cons_of_eq (hxab ▸ hxa)] at hx
        exact Nat.succ.inj hx
      · rwa [alike_cons_of_ne hxa, alike_cons_of_ne (hxab ▸ hxa)] at hx

/-- Lists that differ only by what may stand either way are the same if it stands the same way. -/
theorem eq_of_alike {as bs : List α} (hlike : List.Forall₂ (fun a b => cmp a b = .eq) as bs)
    (h : ∀ x, alike cmp x as = alike cmp x bs) : as = bs := by
  induction hlike with
  | nil => rfl
  | @cons a b as bs hab _ ih =>
    have hheads := h a
    rw [alike_cons_self, alike_cons_of_eq hab] at hheads
    obtain rfl := (List.cons.inj hheads).1
    rw [ih fun x => ?_]
    have hx := h x
    by_cases hxa : cmp x a = .eq
    · rw [alike_cons_of_eq hxa, alike_cons_of_eq hxa] at hx
      exact (List.cons.inj hx).2
    · rwa [alike_cons_of_ne hxa, alike_cons_of_ne hxa] at hx

/-- A list can be stably sorted to one list only. -/
theorem StablySorted.unique {as bs cs : List α} (hb : StablySorted cmp as bs)
    (hc : StablySorted cmp as cs) : bs = cs := by
  have hsame (x : α) : alike cmp x bs = alike cmp x cs := (hb.stable x).trans (hc.stable x).symm
  exact eq_of_alike (alike_of_ordered hb.ordered hc.ordered fun x => by rw [hsame]) hsame

end

end MinerFleet
