/-
Exact amounts and their decimal digits.

* `Quotient` — a non-negative amount, as a numerator over a positive denominator;
* `Quotient.round` — the nearest whole number, a half going to the even neighbour;
* `Quotient.fixed` — the digits with a given number of places;
* `digitCount` — how many digits a number has.
-/

namespace MinerFleet.Decimal

/-- A non-negative amount `num / den`. -/
structure Quotient where
  num : Nat
  den : Nat
  den_pos : 0 < den := by decide

namespace Quotient

/-- A whole number as an amount. -/
def ofNat (n : Nat) : Quotient where
  num := n
  den := 1

/-- The whole number nearest to the amount; a half goes to the even neighbour. -/
def round (q : Quotient) : Nat :=
  let low := q.num / q.den
  let rest := 2 * (q.num % q.den)
  if rest < q.den then low
  else if q.den < rest then low + 1
  else low + low % 2

/-- The amount times a power of ten. -/
def shift (q : Quotient) (exponent : Int) : Quotient :=
  match exponent with
  | .ofNat n => { q with num := q.num * Nat.pow 10 n }
  | .negSucc n =>
    { q with den := q.den * Nat.pow 10 (n + 1),
             den_pos := Nat.mul_pos q.den_pos (Nat.pow_pos (by decide)) }

/-- The comparison of two amounts, by cross multiplication. -/
def le (a b : Quotient) : Bool :=
  a.num * b.den ≤ b.num * a.den

/-- The amount with `places` digits behind the point, the last one rounded. -/
def fixed (q : Quotient) (places : Nat) : String :=
  let units := (q.shift places).round
  if places = 0 then toString units
  else
    let digits := (toString units).toList
    let digits := List.replicate (places + 1 - digits.length) '0' ++ digits
    String.ofList (digits.take (digits.length - places)) ++ "."
      ++ String.ofList (digits.drop (digits.length - places))

end Quotient

/-- How many decimal digits a number has. -/
def digitCount (n : Nat) : Nat :=
  (Nat.toDigits 10 n).length

end MinerFleet.Decimal
