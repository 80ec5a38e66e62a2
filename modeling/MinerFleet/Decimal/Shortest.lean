/-
The fewest digits that tell a float from its neighbours.

* `Interval` — the amounts that round to a float;
* `nearestOnGrid?` — the multiple of a power of ten that is nearest to the float, if one of the
  two around it rounds to the float;
* `shortest` — the digits of the coarsest grid that has such a multiple.

A multiple of a power of ten inside the interval has the float on one side of it, so one of the
two multiples around the float is inside as well: it is enough to look at these two.
-/
import MinerFleet.Decimal.Binary

namespace MinerFleet.Decimal

/-- The amounts that round to a float, from `low` to `high`; the ends belong to it when
`closed`. -/
structure Interval where
  low : Quotient
  mid : Quotient
  high : Quotient
  closed : Bool

/-- The amounts that round to a positive float. Below a power of two the neighbour is half as
far away as above it. -/
def Binary.interval (b : Binary) : Interval :=
  let at_ (quarters : Nat) : Quotient := (⟨b.negative, quarters, b.exponent - 2⟩ : Binary).size
  let narrow := b.mantissa = Nat.pow 2 52 ∧ b.exponent > -1074
  { low := at_ (4 * b.mantissa - if narrow then 1 else 2)
    mid := at_ (4 * b.mantissa)
    high := at_ (4 * b.mantissa + 2)
    closed := b.mantissa % 2 == 0 }

/-- Whether an amount rounds to the float. -/
def Interval.has (i : Interval) (q : Quotient) : Bool :=
  if i.closed then i.low.le q && q.le i.high
  else !(q.le i.low) && !(i.high.le q)

/-- The multiple of ten to the power `exponent` that is nearest to the float, as long as it, or
the other one beside the float, rounds to the float. -/
def nearestOnGrid? (i : Interval) (exponent : Int) : Option Nat :=
  let unit : Quotient := i.mid.shift (-exponent)
  let below := unit.num / unit.den
  let nearest := unit.round
  let other := if nearest = below then below + 1 else below
  let amount (n : Nat) : Quotient := (Quotient.ofNat n).shift exponent
  if i.has (amount nearest) then some nearest
  else if i.has (amount other) then some other
  else none

/-- How many digits stand before the point; zero or negative when the first digit that is not
zero stands behind it. -/
def Quotient.magnitude (q : Quotient) : Int :=
  if q.den ≤ q.num then (digitCount (q.num / q.den) : Int)
  else if q.num = 0 then 0
  else 1 - (digitCount ((q.den - 1) / q.num) : Int)

/-- Moves the zeros at the end of a number into the exponent. -/
def dropZeros : Nat → Nat → Int → Nat × Int
  | 0, n, e => (n, e)
  | fuel + 1, n, e => if n % 10 = 0 then dropZeros fuel (n / 10) (e + 1) else (n, e)

/-- Looks for a multiple inside the interval with `digits` digits, then with one more, and so on
for `fuel` more grids. -/
def shortestFrom (i : Interval) (magnitude : Int) : Nat → Nat → Nat × Int
  | 0, digits => ((i.mid.shift (digits - magnitude)).round, magnitude - digits)
  | fuel + 1, digits =>
    match nearestOnGrid? i (magnitude - digits) with
    | some n => (n, magnitude - digits)
    | none => shortestFrom i magnitude fuel (digits + 1)

/-- The fewest digits that read back as the float: a number that does not end in zero and an
exponent of ten. Seventeen digits are always enough. -/
def shortest (b : Binary) : Nat × Int :=
  let i := b.interval
  let (n, e) := shortestFrom i i.mid.magnitude 16 1
  dropZeros 20 n e

end MinerFleet.Decimal
