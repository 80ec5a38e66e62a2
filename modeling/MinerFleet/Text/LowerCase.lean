/-
Small letters.

* `smallChar` — the small letters that stand for one character, by itself;
* `lower` — a text in small letters: as character by character, except that a capital sigma
  that ends a word becomes the final sigma.
-/
import MinerFleet.Text.CaseTable

namespace MinerFleet.Text

/-- The place to which a run moves a code point that it holds. -/
def shiftBy? (code : Nat) (run : Nat × Nat × Nat × Int) : Option Nat :=
  let (first, last, step, shift) := run
  if first ≤ code ∧ code ≤ last ∧ (code - first) % step = 0 then
    some (Int.toNat (code + shift))
  else
    none

/-- The small letters for one character taken by itself. Only the dotted capital I gives two. -/
def smallChar (c : Char) : List Char :=
  if c.toNat < 128 then [c.toLower]
  else if c = 'İ' then ['i', '\u0307']
  else [((lowerRuns.findSome? (shiftBy? c.toNat)).map Char.ofNat).getD c]

/-- A letter with case: the character ends or begins a word for `lower`. -/
def isCased (c : Char) : Bool :=
  casedRanges.has c

/-- A character that `lower` passes over when it looks for the neighbouring letter. -/
def isIgnorable (c : Char) : Bool :=
  ignorableRanges.has c

/-- Whether the first character that is not passed over is a letter with case. -/
def letterNext (cs : List Char) : Bool :=
  match cs.dropWhile isIgnorable with
  | [] => false
  | c :: _ => isCased c

/-- Small letters for the rest of a text, `before` being what precedes it, nearest first. -/
def lowerFrom (before : List Char) : List Char → List Char
  | [] => []
  | c :: cs =>
    let small :=
      if c = 'Σ' then
        if letterNext before && !letterNext cs then ['ς'] else ['σ']
      else
        smallChar c
    small ++ lowerFrom (c :: before) cs

def lowerChars (cs : List Char) : List Char :=
  lowerFrom [] cs

/-- A text in small letters. -/
def lower (s : String) : String :=
  String.ofList (lowerChars s.toList)

end MinerFleet.Text
