/-
The time to the next refresh.

* `Countdown` — seconds that remain of an interval;
* `Countdown.tick` — one second later, and whether the refresh is due;
* `Countdown.reset`, `Countdown.start` — the interval begins anew, or with another length.
-/

namespace MinerFleet

/-- Seconds that remain of an interval of at least one second. -/
structure Countdown where
  interval : UInt32
  remaining : UInt32
  interval_pos : 0 < interval
  remaining_le : remaining ≤ interval
deriving DecidableEq

namespace Countdown

/-- A full interval; one of no seconds counts as one second. -/
def start (interval : UInt32) : Countdown :=
  if h : interval = 0 then ⟨1, 1, by decide, UInt32.le_refl 1⟩
  else
    ⟨interval, interval,
     UInt32.lt_iff_toNat_lt.2 (Nat.pos_of_ne_zero fun e => h (UInt32.toNat_inj.1 e)),
     UInt32.le_refl interval⟩

/-- The interval of a fleet that never had another one. -/
def default : Countdown :=
  start 30

instance : Inhabited Countdown := ⟨default⟩

/-- The full interval again. -/
def reset (c : Countdown) : Countdown :=
  { c with remaining := c.interval, remaining_le := UInt32.le_refl c.interval }

/-- One second less, but not less than none. -/
def lower (c : Countdown) : Countdown :=
  if h : c.remaining = 0 then c
  else
    { c with
      remaining := c.remaining - 1
      remaining_le := by
        have hle := UInt32.le_iff_toNat_le.1 c.remaining_le
        have hpos : 1 ≤ c.remaining := UInt32.le_iff_toNat_le.2
          (Nat.pos_of_ne_zero fun e => h (UInt32.toNat_inj.1 e))
        refine UInt32.le_iff_toNat_le.2 ?_
        rw [UInt32.toNat_sub_of_le _ _ hpos]
        exact Nat.le_trans (Nat.sub_le _ _) hle }

/-- One second later, and whether a refresh is due. Time stands still while a pass is running and
while there is nothing to refresh. -/
def tick (c : Countdown) (busy hasDevices : Bool) : Countdown × Bool :=
  if busy || !hasDevices then (c, false)
  else (c.lower, c.lower.remaining == 0)

end Countdown

end MinerFleet
