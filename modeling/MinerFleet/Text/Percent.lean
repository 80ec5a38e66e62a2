/-
Percent encoding.

* `percentEncode` — a text with the bytes of chosen characters written `%XX`;
* `percentBytes` — bytes back from a text with `%XX` in it, where a percent sign that does not
  begin such a triple stands for itself;
* `formEncode`, `formDecode` — the form of query strings, where a space is a plus sign.
-/
import MinerFleet.Text.Utf8

namespace MinerFleet.Text

/-- The capital hexadecimal digit for a number below sixteen. -/
def hexDigit (n : Nat) : Char :=
  ((Nat.toDigits 16 n).headD '0').toUpper

/-- The number that a hexadecimal digit of either case stands for. -/
def hexValue? (c : Char) : Option Nat :=
  if '0' ≤ c ∧ c ≤ '9' then some (c.toNat - '0'.toNat)
  else if 'a' ≤ c ∧ c ≤ 'f' then some (c.toNat - 'a'.toNat + 10)
  else if 'A' ≤ c ∧ c ≤ 'F' then some (c.toNat - 'A'.toNat + 10)
  else none

/-- A byte as `%XX`. -/
def percentByte (b : UInt8) : String :=
  String.ofList ['%', hexDigit (b.toNat / 16), hexDigit (b.toNat % 16)]

/-- A character as `%XX` for each of its bytes. -/
def percentChar (c : Char) : String :=
  String.join ((String.singleton c).toUTF8.toList.map percentByte)

/-- A text with every character escaped that `plain` does not keep. -/
def percentEncode (plain : Char → Bool) (s : String) : String :=
  String.join (s.toList.map fun c => if plain c then String.singleton c else percentChar c)

/-- The bytes of a text, with `%XX` read as the byte it names. -/
def percentBytesOf : List Char → List UInt8
  | '%' :: a :: b :: rest =>
    match hexValue? a, hexValue? b with
    | some hi, some lo => UInt8.ofNat (hi * 16 + lo) :: percentBytesOf rest
    | _, _ => '%'.toNat.toUInt8 :: percentBytesOf (a :: b :: rest)
  | c :: rest => (String.singleton c).toUTF8.toList ++ percentBytesOf rest
  | [] => []

def percentBytes (s : String) : List UInt8 :=
  percentBytesOf s.toList

/-! ### Forms -/

/-- What a form keeps as it is; a space becomes a plus sign. -/
def isFormPlain (c : Char) : Bool :=
  c.isAlphanum || c == '*' || c == '-' || c == '.' || c == '_'

def formEncode (s : String) : String :=
  String.join (s.toList.map fun c =>
    if c = ' ' then "+" else if isFormPlain c then String.singleton c else percentChar c)

def formDecode (s : String) : String :=
  utf8Lossy (percentBytes (String.ofList (s.toList.map fun c => if c = '+' then ' ' else c)))

end MinerFleet.Text
