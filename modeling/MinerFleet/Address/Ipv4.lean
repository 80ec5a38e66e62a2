/-
IPv4 addresses.

* `Ipv4` — an address, as a number below two to the 32;
* `Ipv4.text` — its four octets with dots between them;
* `Ipv4.ofText?` — the address that a text spells; only `Ipv4.text` spells one.
-/
import MinerFleet.Text.Basic

namespace MinerFleet

open Text

/-- An address by its number. -/
structure Ipv4 where
  value : Nat
  value_lt : value < 0x100000000 := by omega
deriving DecidableEq

namespace Ipv4

instance : Inhabited Ipv4 := ⟨⟨0, by decide⟩⟩

/-- The address with a number, counted around at two to the 32. -/
def ofNat (n : Nat) : Ipv4 :=
  ⟨n % 0x100000000, Nat.mod_lt _ (by decide)⟩

/-- The address behind which there is none. -/
def highest : Ipv4 :=
  ⟨0xffffffff, by decide⟩

/-- The octets of an address, the highest first. -/
def octets (a : Ipv4) : List Nat :=
  [a.value / 0x1000000, a.value / 0x10000 % 256, a.value / 0x100 % 256, a.value % 256]

/-- An address as it is written. -/
def text (a : Ipv4) : String :=
  joinWith "." (a.octets.map toString)

/-- An octet: up to three digits, no zero in front of others, at most 255. -/
def octet? (cs : List Char) : Option (Fin 256) :=
  if cs = [] ∨ 3 < cs.length ∨ !cs.all Char.isDigit ∨ (cs.head? = some '0' ∧ cs.length ≠ 1) then
    none
  else
    let n := cs.foldl (fun n c => n * 10 + (c.toNat - '0'.toNat)) 0
    if h : n < 256 then some ⟨n, h⟩ else none

/-- The address with four octets. -/
def ofOctets (a b c d : Fin 256) : Ipv4 :=
  ⟨a * 0x1000000 + b * 0x10000 + c * 0x100 + d, by omega⟩

/-- The address that characters spell. -/
def ofChars? (cs : List Char) : Option Ipv4 :=
  match (splitChars '.' cs).map octet? with
  | [some a, some b, some c, some d] => some (ofOctets a b c d)
  | _ => none

/-- The address that a text spells. -/
def ofText? (s : String) : Option Ipv4 :=
  ofChars? s.toList

end Ipv4

/-- A text that spells an IPv4 address. -/
def isIpLiteral (s : String) : Bool :=
  (Ipv4.ofText? s).isSome

end MinerFleet
