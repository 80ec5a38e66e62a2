/-
What a miner that does not answer adds to the sums of its fleet.

* `Totals.Regular` — sums as they come up: no sum is the zero with a minus sign, and the best
  difficulty is not negative.

Sums begin at zero and stay regular whatever is added (`Regular.add`), also where readings are
negative, infinite or no numbers. A failed record has zeros for all that is summed up, and these add
nothing to regular sums (`Regular.add_failed`); so the sums are those of the other miners, wherever
in the fleet it stands (`totals_with_failed`).
-/
import MinerFleet.Fleet.Totals
import MinerFleet.Proofs.Decimal.Sum

namespace MinerFleet

open Decimal

namespace Totals

/-- Sums to which zeros add nothing. -/
structure Regular (t : Totals) : Prop where
  hashRate : ¬SignedZero t.hashRate
  power : ¬SignedZero t.power
  bestDiff : ¬t.bestDiff < 0

theorem regular_empty : Regular {} where
  hashRate := nofun
  power := nofun
  bestDiff := by decide +kernel

variable {t : Totals}

theorem Regular.add (h : t.Regular) (d : Device) : (t.add d).Regular where
  hashRate := not_signedZero_add h.hashRate _
  power := not_signedZero_add h.power _
  bestDiff := by
    rw [Totals.add]
    dsimp only
    split
    · rename_i hbetter
      exact fun hneg => h.bestDiff (lt_zero_of_lt hneg hbetter)
    · exact h.bestDiff

theorem Regular.foldl (h : t.Regular) (devices : List Device) :
    (devices.foldl Totals.add t).Regular := by
  induction devices generalizing t with
  | nil => exact h
  | cons d devices ih => exact ih (h.add d)

/-- A miner that has failed adds nothing. -/
theorem Regular.add_failed (h : t.Regular) (k : Device) : t.add k.failed = t := by
  have hbest : (if t.bestDiff < 0 then 0 else t.bestDiff) = t.bestDiff := if_neg h.bestDiff
  have hrate := add_zero_of_not_signedZero h.hashRate
  have hpower := add_zero_of_not_signedZero h.power
  show Totals.mk (t.hashRate + 0) (t.power + 0) (if t.bestDiff < 0 then 0 else t.bestDiff) = t
  rw [hrate, hpower, hbest]

end Totals

/-- A miner that has failed contributes nothing to the sums of its fleet. -/
theorem totals_with_failed (before after : List Device) (k : Device) :
    totals (before ++ k.failed :: after) = totals (before ++ after) := by
  rw [totals, totals, List.foldl_append, List.foldl_cons, List.foldl_append,
    (Totals.regular_empty.foldl before).add_failed]

end MinerFleet
