/-
Difficulties, as miners report them.

* `Difficulty` — a number, or a text that may say one;
* `Difficulty.value?` — the number;
* `Difficulty.numerized` — a text replaced by the number that it says.
-/
import MinerFleet.Magnitude.Basic
import MinerFleet.Json.Decode

namespace MinerFleet

inductive Difficulty where
  | number (x : Float)
  | text (s : String)
deriving DecidableEq

namespace Difficulty

/-- The number, unless a text does not say one. -/
def value? : Difficulty → Option Float
  | .number x => some x
  | .text s => Magnitude.parse? s

/-- A text that says a number becomes the number. -/
def numerized : Difficulty → Difficulty
  | .number x => .number x
  | .text s =>
    match Magnitude.parse? s with
    | some x => .number x
    | none => .text s

/-- A difficulty for people. -/
def display : Difficulty → String
  | .number x => Magnitude.format x
  | .text s => s

def toJson : Difficulty → Json
  | .number x => .ofFloat x
  | .text s => .string s

def decode : Decoder Difficulty
  | .number n => .ok (.number n.toFloat)
  | .string s => .ok (.text s)
  | .damaged _ => .error .damaged
  | _ => .error (.noAlternative "SuffixedNumber")

end Difficulty

end MinerFleet
