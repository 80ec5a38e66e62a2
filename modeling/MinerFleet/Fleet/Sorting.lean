/-
A stable sort.

* `insertSorted` — puts an element in front of the first one that it need not follow;
* `stableSort` — a list in order; elements that may stand either way keep their places.

`perm_stableSort` says that a list in order has the same elements as before.
-/

namespace MinerFleet

variable {α : Type}

/-- Puts an element into an ordered list, as far to the front as it may stand. -/
def insertSorted (le : α → α → Bool) (a : α) : List α → List α
  | [] => [a]
  | b :: bs => if le a b then a :: b :: bs else b :: insertSorted le a bs

/-- The list in order. -/
def stableSort (le : α → α → Bool) (as : List α) : List α :=
  as.foldr (insertSorted le) []

theorem perm_insertSorted (le : α → α → Bool) (a : α) (bs : List α) :
    (insertSorted le a bs).Perm (a :: bs) := by
  induction bs with
  | nil => exact List.Perm.refl [a]
  | cons b bs ih =>
    rw [insertSorted]
    by_cases h : le a b
    · rw [if_pos h]
    · rw [if_neg h]
      exact (List.Perm.cons b ih).trans (List.Perm.swap a b bs)

theorem perm_stableSort (le : α → α → Bool) (as : List α) : (stableSort le as).Perm as := by
  induction as with
  | nil => exact List.Perm.nil
  | cons a as ih => exact (perm_insertSorted le a _).trans (ih.cons a)

end MinerFleet
