/-
The reader of JSON texts.

* `readString`, `readNumber` — strings and numbers;
* `readValue` — a value anywhere in a text;
* `Document.ofText` — a whole text, and whether something stands behind its value;
* `Json.ofText?` — the value of a text that is JSON throughout.

The reader always returns a document: what is wrong with a text is marked in it. Brackets may be
nested `maxDepth` deep.
-/
import MinerFleet.Json.Document
import MinerFleet.Text.Percent
import MinerFleet.Decimal.Numeral

namespace MinerFleet.Json

open Text Decimal

/-- The blanks between the parts of a JSON text. -/
def isGap (c : Char) : Bool :=
  c == ' ' || c == '\t' || c == '\n' || c == '\r'

def skipGap (cs : List Char) : List Char :=
  cs.dropWhile isGap

/-! ### Strings -/

/-- A unit of a string: a character, or the 16 bits of an escape, which may be half of one. -/
inductive CodeUnit where
  | char (c : Char)
  | escape (bits : Nat)

/-- The character that a one-letter escape stands for. -/
def shortEscape? (c : Char) : Option Char :=
  if c = '"' ∨ c = '\\' ∨ c = '/' then some c
  else if c = 'b' then some '\x08'
  else if c = 'f' then some '\x0c'
  else if c = 'n' then some '\n'
  else if c = 'r' then some '\r'
  else if c = 't' then some '\t'
  else none

/-- Four hexadecimal digits. -/
def hexBits? (a b c d : Char) : Option Nat := do
  return (← hexValue? a) * 4096 + (← hexValue? b) * 256 + (← hexValue? c) * 16 + (← hexValue? d)

/-- The units of a string up to its closing quote, and what stands behind the quote. None when
there is no such quote, or a control character or a wrong escape before it. -/
def readUnits : List Char → Option (List CodeUnit × List Char)
  | [] => none
  | '"' :: rest => some ([], rest)
  | '\\' :: 'u' :: a :: b :: c :: d :: rest =>
    match hexBits? a b c d, readUnits rest with
    | some bits, some (units, rest) => some (.escape bits :: units, rest)
    | _, _ => none
  | '\\' :: e :: rest =>
    match shortEscape? e, readUnits rest with
    | some c, some (units, rest) => some (.char c :: units, rest)
    | _, _ => none
  | c :: rest =>
    if c < ' ' then none
    else (readUnits rest).map fun (units, rest) => (.char c :: units, rest)

/-- The text of units, unless an escape is half of a surrogate pair. -/
def joinUnits : List CodeUnit → Option (List Char)
  | [] => some []
  | .char c :: units => (joinUnits units).map (c :: ·)
  | .escape high :: .escape low :: units =>
    if 0xd800 ≤ high ∧ high < 0xdc00 then
      if 0xdc00 ≤ low ∧ low < 0xe000 then
        (joinUnits units).map
          (Char.ofNat (0x10000 + (high - 0xd800) * 0x400 + (low - 0xdc00)) :: ·)
      else
        none
    else if 0xdc00 ≤ high ∧ high < 0xe000 then none
    else (joinUnits (.escape low :: units)).map (Char.ofNat high :: ·)
  | .escape bits :: units =>
    if 0xd800 ≤ bits ∧ bits < 0xe000 then none
    else (joinUnits units).map (Char.ofNat bits :: ·)

/-- A string, behind its opening quote. -/
def readString (cs : List Char) : Except Damage String × List Char :=
  match readUnits cs with
  | none => (.error .cut, [])
  | some (units, rest) =>
    match joinUnits units with
    | none => (.error .unreadable, rest)
    | some cs => (.ok (String.ofList cs), rest)

/-! ### Numbers -/

/-- Splits off the digits at the front. -/
def spanDigits (cs : List Char) : List Char × List Char :=
  (cs.takeWhile Char.isDigit, cs.dropWhile Char.isDigit)

/-- The digits behind a point, or nothing when there is no point. -/
def readFraction : List Char → Option (Option (List Char) × List Char)
  | '.' :: cs =>
    match spanDigits cs with
    | ([], _) => none
    | (digits, rest) => some (some digits, rest)
  | cs => some (none, cs)

/-- The exponent behind a number, or nothing when there is none. -/
def readExponent : List Char → Option (Option Int × List Char)
  | [] => some (none, [])
  | c :: cs =>
    if c = 'e' ∨ c = 'E' then
      let (negative, cs) := Numeral.sign cs
      match spanDigits cs with
      | ([], _) => none
      | (digits, rest) =>
        let size : Int := Numeral.digitsValue digits
        some (some (if negative then -size else size), rest)
    else
      some (none, c :: cs)

/-- A number: a minus sign or none, digits without a zero in front of others, a point with digits
behind it or none, an exponent or none. -/
def readLiteral (cs : List Char) : Option (Literal × List Char) :=
  let (negative, cs) :=
    match cs with
    | '-' :: cs => (true, cs)
    | cs => (false, cs)
  let (whole, cs) := spanDigits cs
  if whole = [] ∨ (whole.head? = some '0' ∧ whole.length ≠ 1) then none
  else
    match readFraction cs with
    | none => none
    | some (fraction, cs) =>
      match readExponent cs with
      | none => none
      | some (exponent, cs) => some (⟨negative, whole, fraction, exponent⟩, cs)

def readNumber (cs : List Char) : Document × List Char :=
  match readLiteral cs with
  | none => (.damaged .cut, [])
  | some (l, rest) =>
    match l.value? with
    | none => (.damaged .unreadable, rest)
    | some n => (.number n, rest)

/-! ### Values -/

/-- How deep brackets may be nested. -/
def maxDepth : Nat := 127

/-- A word of the format, such as `true`. -/
def readWord (word : String) (value : Document) (cs : List Char) : Document × List Char :=
  if word.toList.isPrefixOf cs then (value, cs.drop word.length) else (.damaged .cut, [])

/-- An array or object that stands `room` levels below the deepest that may be. -/
def limit (room : Nat) (doc : Document) : Document :=
  if room = 0 then .damaged (if doc.isWhole then .unreadable else .cut) else doc

mutual
/-- The value at the front of a text, and what stands behind it; nothing when the text breaks
off. The first number bounds the steps. -/
def readValue : Nat → Nat → List Char → Document × List Char
  | 0, _, _ => (.damaged .cut, [])
  | fuel + 1, room, cs =>
    match skipGap cs with
    | '[' :: cs =>
      let (items, damage, rest) :=
        match skipGap cs with
        | ']' :: rest => ([], none, rest)
        | cs => readItems fuel (room - 1) cs
      (limit room (.array items damage), rest)
    | '\x7b' :: cs =>
      let (fields, damage, rest) :=
        match skipGap cs with
        | '\x7d' :: rest => ([], none, rest)
        | cs => readFields fuel (room - 1) cs
      (limit room (.object fields damage), rest)
    | '"' :: cs =>
      match readString cs with
      | (.ok s, rest) => (.string s, rest)
      | (.error damage, rest) => (.damaged damage, rest)
    | 'n' :: cs => readWord "null" .null ('n' :: cs)
    | 't' :: cs => readWord "true" (.bool true) ('t' :: cs)
    | 'f' :: cs => readWord "false" (.bool false) ('f' :: cs)
    | cs => readNumber cs

/-- The items of an array up to its closing bracket, one at least. -/
def readItems : Nat → Nat → List Char → List Document × Option Damage × List Char
  | 0, _, _ => ([], some .cut, [])
  | fuel + 1, room, cs =>
    let (item, rest) := readValue fuel room cs
    if !item.isWhole then ([item], some .cut, [])
    else
      match skipGap rest with
      | ']' :: rest => ([item], none, rest)
      | ',' :: rest =>
        let (items, damage, rest) := readItems fuel room rest
        (item :: items, damage, rest)
      | _ => ([item], some .cut, [])

/-- The fields of an object up to its closing bracket, one at least. -/
def readFields : Nat → Nat → List Char → List (String × Document) × Option Damage × List Char
  | 0, _, _ => ([], some .cut, [])
  | fuel + 1, room, cs =>
    match skipGap cs with
    | '"' :: cs =>
      let (key, rest) := readString cs
      match skipGap rest with
      | ':' :: rest =>
        let (value, rest) := readValue fuel room rest
        let (fields, damage, rest) :=
          if !value.isWhole then ([], some .cut, [])
          else
            match skipGap rest with
            | '\x7d' :: rest => ([], none, rest)
            | ',' :: rest => readFields fuel room rest
            | _ => ([], some .cut, [])
        match key with
        | .ok key => ((key, value) :: fields, damage, rest)
        | .error _ =>
          ([], some (if damage = some .cut then .cut else .unreadable), rest)
      | _ => ([], some .cut, [])
    | _ => ([], some .cut, [])
end

end Json

namespace Document

/-- The document of a text, and whether only blanks stand behind its value. -/
def ofText (s : String) : Document × Bool :=
  let cs := s.toList
  let (doc, rest) := Json.readValue (2 * cs.length + 2) Json.maxDepth cs
  (doc, (Json.skipGap rest).isEmpty)

end Document

/-- The value of a text, if it is one JSON value from beginning to end. -/
def Json.ofText? (s : String) : Option Json :=
  match Document.ofText s with
  | (doc, true) => doc.value?
  | (_, false) => none

end MinerFleet
