/-
Natural order of texts.

* `Token` — a row of digits, or one other character in small letters;
* `tokens` — the tokens of a text: each text has one way to be taken apart;
* `foldedCompare` — the order by tokens: numbers by their value, letters without case;
* `naturalCompare` — the same, and texts that it does not tell apart in the order of their
  characters.

A number stands where its digits stand among the characters, and no character's small letter is a
digit; so tokens have the order of their keys, and texts that of their lists of keys.
-/
import MinerFleet.Text.LowerCase

namespace MinerFleet.Text

inductive Token where
  /-- A row of digits, by the number that it denotes. -/
  | number (value : Nat)
  /-- Another character, by its small letters. -/
  | letter (small : List Char)
deriving DecidableEq

/-- The token of a row of digits that has been read, if one has. -/
def flushRun : Option Nat → List Token
  | none => []
  | some value => [.number value]

/-- The tokens of a text, behind a row of digits that denotes `run` so far. -/
def tokensFrom (run : Option Nat) : List Char → List Token
  | [] => flushRun run
  | c :: cs =>
    if c.isDigit then
      tokensFrom (some (run.getD 0 * 10 + (c.toNat - '0'.toNat))) cs
    else
      flushRun run ++ .letter (smallChar c) :: tokensFrom none cs

/-- The tokens of a text. -/
def tokens (s : String) : List Token :=
  tokensFrom none s.toList

/-- What decides the place of a token. -/
def Token.key : Token → List Nat
  | .number value => ['0'.toNat, value]
  | .letter small => small.map Char.toNat

/-- What decides the place of a text, but for case and zeros in front of numbers. -/
def foldedKey (s : String) : List (List Nat) :=
  (tokens s).map Token.key

/-- The order of texts with numbers by value and letters without case. -/
def foldedCompare (a b : String) : Ordering :=
  compare (foldedKey a) (foldedKey b)

/-- Natural order, which is the order of the characters where `foldedCompare` sees no
difference. -/
def naturalCompare (a b : String) : Ordering :=
  (foldedCompare a b).then (compare a b)

end MinerFleet.Text
