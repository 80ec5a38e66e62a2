/-
Binary floating-point numbers, taken apart.

* `Binary` — a finite number, as sign, mantissa and exponent of two;
* `Binary.ofFloat?` — a float taken apart, unless it is infinite or no number;
* `Binary.size` — its exact absolute value;
* `fixedText` — a float written with a given number of places, rounded exactly.
-/
import MinerFleet.Decimal.Quotient

namespace MinerFleet.Decimal

/-- The finite number `± mantissa * 2 ^ exponent`. -/
structure Binary where
  negative : Bool
  mantissa : Nat
  exponent : Int

namespace Binary

/-- A finite float taken apart. A number of full precision has a mantissa of 53 bits. -/
def ofFloat? (x : Float) : Option Binary :=
  let bits := x.toBits.toNat
  let negative := bits / Nat.pow 2 63 == 1
  let scale : Nat := bits / Nat.pow 2 52 % 2048
  let fraction : Nat := bits % Nat.pow 2 52
  if scale = 2047 then none
  else if scale = 0 then some ⟨negative, fraction, -1074⟩
  else some ⟨negative, Nat.pow 2 52 + fraction, (scale : Int) - 1075⟩

/-- The number without its sign, exactly. -/
def size (b : Binary) : Quotient :=
  match b.exponent with
  | .ofNat n => .ofNat (b.mantissa * Nat.pow 2 n)
  | .negSucc n => ⟨b.mantissa, Nat.pow 2 (n + 1), Nat.pow_pos (by decide)⟩

end Binary

/-- A float that has no digits. -/
def specialText (x : Float) : String :=
  if x.isNaN then "NaN" else if x < 0 then "-inf" else "inf"

/-- A float with `places` digits behind the point. The exact binary value is rounded, a half to
the even digit, and the sign of a negative number stays even when only zeros are left. -/
def fixedText (x : Float) (places : Nat) : String :=
  match Binary.ofFloat? x with
  | none => specialText x
  | some b => (if b.negative then "-" else "") ++ b.size.fixed places

end MinerFleet.Decimal
