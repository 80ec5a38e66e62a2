/-
The numbers of JSON texts.

* `Number` — a whole number of at most 64 bits, or a float;
* `Number.text` — how a number is written;
* `Literal` — the parts of a number in a text;
* `Literal.value?` — the number that a literal stands for, unless it is too large for a float.

Floats are written with the fewest digits that tell them apart, positionally while the first
digit stands between the fifth place behind the point and the sixteenth before it.

A literal with a point, an exponent or too many digits is a float. Of its digits it keeps those
that fit into 64 bits, and this whole number is then scaled by powers of ten in float arithmetic:
the result may differ from the nearest float in the last bits.
-/
import MinerFleet.Decimal.Shortest

namespace MinerFleet

open Decimal

inductive Number where
  | int (n : Int)
  | float (x : Float)
deriving DecidableEq

instance : Inhabited Number := ⟨.int 0⟩

namespace Number

/-- The number as a float. -/
def toFloat : Number → Float
  | .int n => Float.ofInt n
  | .float x => x

/-- Digits with the point where the exponent of ten wants it. -/
def placeDigits (digits : List Char) (exponent : Int) : String :=
  match exponent with
  | .ofNat n => String.ofList (digits ++ List.replicate n '0') ++ ".0"
  | .negSucc n =>
    let digits := List.replicate (n + 2 - digits.length) '0' ++ digits
    let whole := digits.length - (n + 1)
    String.ofList (digits.take whole) ++ "." ++ String.ofList (digits.drop whole)

/-- Digits with a point behind the first and an exponent. -/
def scientific (digits : List Char) (exponent : Int) : String :=
  let fraction :=
    match digits.drop 1 with
    | [] => ""
    | ds => "." ++ String.ofList ds
  let sign := if exponent < 0 then "-" else "+"
  String.ofList (digits.take 1) ++ fraction ++ "e" ++ sign ++ toString exponent.natAbs

/-- A float with the fewest digits that tell it from its neighbours. -/
def floatText (x : Float) : String :=
  match Binary.ofFloat? x with
  | none => specialText x
  | some b =>
    let sign := if b.negative then "-" else ""
    if b.mantissa = 0 then sign ++ "0.0"
    else
      let (n, e) := shortest b
      let digits := Nat.toDigits 10 n
      let top : Int := e + digits.length - 1
      sign ++ if -5 ≤ top ∧ top ≤ 15 then placeDigits digits e else scientific digits top

/-- How a number is written. -/
def text : Number → String
  | .int n => toString n
  | .float x => floatText x

end Number

/-! ### Reading -/

/-- A number in a text: its sign, the digits before the point, those behind it if there is a
point, and the exponent if there is one. -/
structure Literal where
  negative : Bool
  whole : List Char
  fraction : Option (List Char)
  exponent : Option Int

namespace Literal

/-- A row of digits kept as far as 64 bits go: their value, and how many were left out. -/
structure Kept where
  value : Nat
  dropped : Nat

/-- Digits are kept while the value stays below two to the 64; after the first that does not
fit, none is. -/
def keep (start : Nat) (digits : List Char) : Kept :=
  digits.foldl
    (fun k c =>
      let next := k.value * 10 + (c.toNat - '0'.toNat)
      if k.dropped = 0 ∧ next < UInt64.size then ⟨next, 0⟩ else ⟨k.value, k.dropped + 1⟩)
    ⟨start, 0⟩

/-- A power of ten as a float. -/
def powerOfTen (n : Nat) : Float :=
  Float.ofScientific 1 false n

/-- A float times a power of ten; none when that is too large. -/
def scale? (x : Float) (exponent : Int) : Option Float :=
  match exponent with
  | .ofNat n =>
    if n ≤ 308 then
      let y := x * powerOfTen n
      if y.isInf then none else some y
    else if x == 0 then some x
    else none
  | .negSucc k =>
    let n := k + 1
    if n ≤ 308 then some (x / powerOfTen n)
    else if n ≤ 616 then some (x / powerOfTen 308 / powerOfTen (n - 308))
    else some 0

/-- The literal as a float. -/
def float? (l : Literal) : Option Float :=
  let whole := keep 0 l.whole
  let fraction := l.fraction.getD []
  let all := keep whole.value fraction
  let places := fraction.length - all.dropped
  let exponent := l.exponent.getD 0 + whole.dropped - places
  (scale? (Float.ofNat all.value) exponent).map fun x => if l.negative then -x else x

/-- The number that a literal stands for, unless it is too large for a float. Minus zero is a
float: no whole number has a sign of zero. -/
def value? (l : Literal) : Option Number :=
  let whole := keep 0 l.whole
  if l.fraction.isNone ∧ l.exponent.isNone ∧ whole.dropped = 0 then
    if ¬ l.negative then some (.int whole.value)
    else if 0 < whole.value ∧ whole.value ≤ Nat.pow 2 63 then some (.int (-(whole.value : Int)))
    else some (.float (-(Float.ofNat whole.value)))
  else
    l.float?.map .float

end Literal

end MinerFleet
