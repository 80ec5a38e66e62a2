/-
Bytes as text.

* `decodeBytes` — the characters that bytes spell, `none` for each stretch that spells nothing;
* `utf8?` — the text, when every byte belongs to a character;
* `utf8Lossy` — the text, with U+FFFD for each stretch that spells nothing.

A stretch that spells nothing is as long as a prefix of some character's bytes can be, and at
least one byte.
-/

namespace MinerFleet.Text

/-- What a first byte announces: its own bits, the least and the greatest second byte, and the
number of bytes to come. -/
def announced (b : Nat) : Option (Nat × Nat × Nat × Nat) :=
  if b < 0x80 then some (b, 0, 0, 0)
  else if b < 0xc2 then none
  else if b < 0xe0 then some (b - 0xc0, 0x80, 0xbf, 1)
  else if b = 0xe0 then some (0, 0xa0, 0xbf, 2)
  else if b = 0xed then some (0xd, 0x80, 0x9f, 2)
  else if b < 0xf0 then some (b - 0xe0, 0x80, 0xbf, 2)
  else if b = 0xf0 then some (0, 0x90, 0xbf, 3)
  else if b < 0xf4 then some (b - 0xf0, 0x80, 0xbf, 3)
  else if b = 0xf4 then some (4, 0x80, 0x8f, 3)
  else none

/-- Reads the bytes to come, the first of them between `least` and `greatest`, and returns the
code point, if none is missing, and what is left. -/
def following (code least greatest : Nat) : Nat → List UInt8 → Option Nat × List UInt8
  | 0, rest => (some code, rest)
  | _ + 1, [] => (none, [])
  | n + 1, b :: rest =>
    if least ≤ b.toNat ∧ b.toNat ≤ greatest then
      following (code * 64 + (b.toNat - 0x80)) 0x80 0xbf n rest
    else
      (none, b :: rest)

/-- The first character of some bytes, if they begin with one, and what is left. -/
def takeChar (b : UInt8) (rest : List UInt8) : Option Char × List UInt8 :=
  match announced b.toNat with
  | none => (none, rest)
  | some (code, least, greatest, n) =>
    let (code?, rest) := following code least greatest n rest
    (code?.map Char.ofNat, rest)

/-- As `decodeBytes`, for at most `fuel` characters. -/
def decodeFrom : Nat → List UInt8 → List (Option Char)
  | 0, _ => []
  | _ + 1, [] => []
  | fuel + 1, b :: rest =>
    let (c?, rest) := takeChar b rest
    c? :: decodeFrom fuel rest

/-- The characters that bytes spell, with `none` for each stretch that spells nothing. -/
def decodeBytes (bytes : List UInt8) : List (Option Char) :=
  decodeFrom bytes.length bytes

/-- The text that bytes spell, if they spell one throughout. -/
def utf8? (bytes : List UInt8) : Option String :=
  ((decodeBytes bytes).mapM id).map String.ofList

/-- The text that bytes spell, with a replacement character where they spell nothing. -/
def utf8Lossy (bytes : List UInt8) : String :=
  String.ofList ((decodeBytes bytes).map fun c? => c?.getD '\ufffd')

end MinerFleet.Text
