/-
Decimal numbers as they are written.

* `Numeral` — a number read from its digits, exactly;
* `Numeral.ofChars?` — the reader: a sign, digits with a point somewhere, an exponent;
* `Numeral.toFloat` — the nearest float.
-/
import MinerFleet.Decimal.Quotient

namespace MinerFleet.Decimal

/-- The number `± digits * 10 ^ exponent`. -/
structure Numeral where
  negative : Bool
  digits : Nat
  exponent : Int
deriving DecidableEq

namespace Numeral

/-- The value of a row of digits. -/
def digitsValue (cs : List Char) : Nat :=
  cs.foldl (fun n c => n * 10 + (c.toNat - '0'.toNat)) 0

/-- The sign in front of a number, if there is one. -/
def sign : List Char → Bool × List Char
  | '+' :: cs => (false, cs)
  | '-' :: cs => (true, cs)
  | cs => (false, cs)

/-- The exponent behind a number: nothing at all, or the letter E, a sign and digits. -/
def exponent? : List Char → Option Int
  | [] => some 0
  | c :: cs =>
    let (negative, digits) := sign cs
    if (c = 'e' ∨ c = 'E') ∧ digits ≠ [] ∧ digits.all Char.isDigit then
      some (if negative then -(digitsValue digits : Int) else digitsValue digits)
    else
      none

/-- Reads a number: a sign or none, digits with a point before, among or behind them or no
point, and an exponent or none. -/
def ofChars? (cs : List Char) : Option Numeral :=
  let (negative, cs) := sign cs
  let whole := cs.takeWhile Char.isDigit
  let cs := cs.dropWhile Char.isDigit
  let (places, cs) :=
    match cs with
    | '.' :: cs => (cs.takeWhile Char.isDigit, cs.dropWhile Char.isDigit)
    | cs => ([], cs)
  if whole = [] ∧ places = [] then none
  else
    (exponent? cs).map fun e =>
      ⟨negative, digitsValue (whole ++ places), e - (places.length : Int)⟩

/-- The float nearest to a number, infinite when it is too large. -/
def toFloat (n : Numeral) : Float :=
  let size : Float :=
    if n.digits = 0 then 0.0
    else
      let top := (digitCount n.digits : Int) + n.exponent
      if top > 310 then Float.ofBits 0x7ff0000000000000
      else if top < -330 then 0.0
      else
        match n.exponent with
        | .ofNat e => Float.ofScientific n.digits false e
        | .negSucc e => Float.ofScientific n.digits true (e + 1)
  if n.negative then -size else size

end Numeral

/-- A float that is a number and not infinite. -/
def isFinite (x : Float) : Bool :=
  x.isFinite

end MinerFleet.Decimal
