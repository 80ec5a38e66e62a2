/-
Amounts with a unit letter, such as `1.5M`.

* `Scale` — the letters K, M, G, T, P and E, and none at all;
* `Magnitude.read?` — what a text says, exactly;
* `Magnitude.parse?` — the same as a float;
* `Magnitude.format` — a float with the letter that leaves up to three digits before the point.

The writer has one rule for both kinds of arithmetic: it is given the scaled amounts, as exact
quotients (`Magnitude.formatExact`) or as float quotients (`Magnitude.format`).
-/
import MinerFleet.Decimal.Binary
import MinerFleet.Decimal.Numeral
import MinerFleet.Text.Basic

namespace MinerFleet

open Decimal

/-- The unit letters, in increasing order. -/
inductive Scale where
  | one | kilo | mega | giga | tera | peta | exa
deriving DecidableEq

namespace Scale

def all : List Scale :=
  [.one, .kilo, .mega, .giga, .tera, .peta, .exa]

/-- The letter as it is written. -/
def letter : Scale → String
  | .one => ""
  | .kilo => "K"
  | .mega => "M"
  | .giga => "G"
  | .tera => "T"
  | .peta => "P"
  | .exa => "E"

/-- The scale of a letter, of either case. -/
def ofLetter? (c : Char) : Option Scale :=
  if c = 'K' ∨ c = 'k' then some .kilo
  else if c = 'M' ∨ c = 'm' then some .mega
  else if c = 'G' ∨ c = 'g' then some .giga
  else if c = 'T' ∨ c = 't' then some .tera
  else if c = 'P' ∨ c = 'p' then some .peta
  else if c = 'E' ∨ c = 'e' then some .exa
  else none

/-- The unit is ten to this power. -/
def power : Scale → Nat
  | .one => 0
  | .kilo => 3
  | .mega => 6
  | .giga => 9
  | .tera => 12
  | .peta => 15
  | .exa => 18

/-- The unit as a float, which is exact. -/
def factor (s : Scale) : Float :=
  Float.ofScientific 1 false s.power

end Scale

namespace Magnitude

/-! ### Reading -/

/-- What a text says, but for its blanks: a number, and the unit letter behind it or none. A
letter of no unit makes the text unreadable. -/
def read? (s : String) : Option (Numeral × Scale) :=
  let cs := s.toList.filter fun c => !Text.isBlank c
  match cs.getLast? with
  | none => none
  | some last =>
    if last.isAlpha then
      match Scale.ofLetter? last with
      | some scale => (Numeral.ofChars? cs.dropLast).map fun n => (n, scale)
      | none => none
    else
      (Numeral.ofChars? cs).map fun n => (n, .one)

/-- The amount that a text says. Its number has to be finite; the amount need not be. -/
def parse? (s : String) : Option Float :=
  match read? s with
  | some (n, scale) =>
    if n.toFloat.isFinite then some (n.toFloat * scale.factor) else none
  | none => none

/-! ### Writing -/

/-- How many places a scaled amount gets: none from a hundred on and when it is whole, otherwise
one from ten on, otherwise two. -/
def places (q : Quotient) : Nat :=
  if 100 * q.den ≤ q.num ∨ q.num % q.den = 0 then 0
  else if 10 * q.den ≤ q.num then 1
  else 2

/-- Writes an amount in the first of the scales, or in a later one for as long as the rounded
amount has more than three digits before the point. -/
def formatIn (scaled : Scale → Quotient) : List Scale → String
  | [] => ""
  | scale :: larger =>
    let q := scaled scale
    let n := places q
    if larger ≠ [] ∧ 1000 * Nat.pow 10 n ≤ (q.shift n).round then formatIn scaled larger
    else q.fixed n ++ scale.letter

/-- The scales from the largest whose unit fits into the amount on. -/
def scalesFrom (q : Quotient) : List Scale → List Scale
  | [] => []
  | scale :: larger =>
    match larger with
    | [] => [scale]
    | next :: _ =>
      if Nat.pow 10 next.power * q.den ≤ q.num then scalesFrom q larger else scale :: larger

/-- Six places without the zeros at the end, for amounts below one. -/
def formatSmall (q : Quotient) : String :=
  let digits := (q.fixed 6).toList.reverse.dropWhile (· = '0')
  String.ofList (digits.dropWhile (· = '.')).reverse

/-- Writes a positive amount, given the amounts that it is in each scale. -/
def formatWith (scaled : Scale → Quotient) (q : Quotient) : String :=
  if q.num < q.den then formatSmall q
  else formatIn scaled (scalesFrom q Scale.all)

/-- An exact amount with its unit letter. -/
def formatExact (q : Quotient) : String :=
  if q.num = 0 then "0"
  else formatWith (fun scale => q.shift (-(scale.power : Int))) q

/-- The exact amount that a float is, without its sign. -/
def sizeOf (x : Float) : Quotient :=
  match Binary.ofFloat? x with
  | some b => b.size
  | none => .ofNat 0

/-- A float with its unit letter; zero unless it is positive and finite. -/
def format (x : Float) : String :=
  if !x.isFinite || x <= 0 then "0"
  else formatWith (fun scale => sizeOf (x / scale.factor)) (sizeOf x)

end Magnitude

end MinerFleet
