/-
Characters and the parts of a text.

* `CodeRanges` — sets of characters, given by ranges of code points;
* `isBlank` — the characters with the Unicode property `White_Space`;
* `trim`, `squeeze` — a text without the blanks at its two ends, and without any;
* `splitAt`, `splitOnce` — a text cut at a character, wherever it stands or at the first place only.
-/

namespace MinerFleet.Text

/-! ### Sets of characters -/

/-- Ranges `(first, last)` of code points. -/
abbrev CodeRanges := List (Nat × Nat)

/-- A character belongs to a set of ranges when one of them spans its code point. -/
def CodeRanges.has (ranges : CodeRanges) (c : Char) : Bool :=
  ranges.any fun range => range.1 ≤ c.toNat && c.toNat ≤ range.2

theorem CodeRanges.has_iff (ranges : CodeRanges) (c : Char) :
    ranges.has c = true ↔ ∃ range ∈ ranges, range.1 ≤ c.toNat ∧ c.toNat ≤ range.2 := by
  simp [has]

/-! ### White space -/

/-- The characters with the property `White_Space`. -/
def blankRanges : CodeRanges :=
  [(0x9, 0xd), (0x20, 0x20), (0x85, 0x85), (0xa0, 0xa0), (0x1680, 0x1680), (0x2000, 0x200a),
   (0x2028, 0x2029), (0x202f, 0x202f), (0x205f, 0x205f), (0x3000, 0x3000)]

def isBlank (c : Char) : Bool :=
  blankRanges.has c

/-- Characters without the blanks in front and behind. -/
def trimChars (cs : List Char) : List Char :=
  ((cs.dropWhile isBlank).reverse.dropWhile isBlank).reverse

/-- A text without the blanks in front and behind. -/
def trim (s : String) : String :=
  String.ofList (trimChars s.toList)

/-- A text without its blanks, wherever they stand. -/
def squeeze (s : String) : String :=
  String.ofList (s.toList.filter fun c => !isBlank c)

/-! ### Parts of a text -/

/-- The parts of a text between the places where a character stands; always one at least. -/
def splitChars (sep : Char) : List Char → List (List Char)
  | [] => [[]]
  | c :: cs =>
    match splitChars sep cs with
    | [] => [[c]]
    | part :: parts => if c = sep then [] :: part :: parts else (c :: part) :: parts

/-- A text split where `sep` stands; a text without it is its own only part. -/
def splitAt (sep : Char) (s : String) : List String :=
  (splitChars sep s.toList).map String.ofList

/-- The first place where `sep` stands splits a text in two; without it nothing stands behind. -/
def splitOnce (sep : Char) (s : String) : String × Option String :=
  match s.toList.dropWhile (· ≠ sep) with
  | [] => (s, none)
  | _ :: back => (String.ofList (s.toList.takeWhile (· ≠ sep)), some (String.ofList back))

/-- Texts in a row, with `sep` between them. -/
def joinWith (sep : String) : List String → String
  | [] => ""
  | [s] => s
  | s :: rest => s ++ sep ++ joinWith sep rest

end MinerFleet.Text
