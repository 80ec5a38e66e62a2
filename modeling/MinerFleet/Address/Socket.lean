/-
Addresses to listen on.

* `HostAddress` — an IPv4 address, or an IPv6 address with its zone;
* `Socket` — an address and a port, and `Socket.text`;
* `Socket.ofText?` — the reader: `1.2.3.4:80` or `[::1]:80`.

An IPv6 address is written with its longest run of zero groups, the first of several, left out,
and with four octets at the end when it stands for an IPv4 address.
-/
import MinerFleet.Address.Ipv4
import MinerFleet.Text.Percent

namespace MinerFleet

open Text

inductive HostAddress where
  | v4 (address : Ipv4)
  | v6 (groups : List Nat) (zone : Nat)
deriving DecidableEq

/-- An address and a port. -/
structure Socket where
  host : HostAddress
  port : Nat
deriving DecidableEq

/-! ### Writing -/

/-- The length of the run of zeros at the front. -/
def zeroRun (groups : List Nat) : Nat :=
  (groups.takeWhile (· = 0)).length

/-- Where the longest run of zero groups begins and how long it is; of equal ones the first. -/
def longestZeroRun (groups : List Nat) : Nat × Nat :=
  (List.range groups.length).foldl
    (fun best i =>
      let length := zeroRun (groups.drop i)
      if best.2 < length then (i, length) else best)
    (0, 0)

def groupsText (groups : List Nat) : String :=
  joinWith ":" (groups.map fun g => String.ofList (Nat.toDigits 16 g))

/-- An IPv6 address as it is written. -/
def ipv6Text (groups : List Nat) : String :=
  match groups with
  | [0, 0, 0, 0, 0, 0xffff, high, low] =>
    "::ffff:" ++ (Ipv4.ofNat (high * UInt16.size + low)).text
  | _ =>
    let (start, length) := longestZeroRun groups
    if 1 < length then
      groupsText (groups.take start) ++ "::" ++ groupsText (groups.drop (start + length))
    else
      groupsText groups

def Socket.text (s : Socket) : String :=
  match s.host with
  | .v4 address => address.text ++ ":" ++ toString s.port
  | .v6 groups zone =>
    let zoneText := if zone = 0 then "" else "%" ++ toString zone
    "[" ++ ipv6Text groups ++ zoneText ++ "]:" ++ toString s.port

/-! ### Reading -/

/-- The value of a row of digits in base 16. -/
def hexDigits? (cs : List Char) : Option Nat :=
  cs.foldlM (fun n c => (hexValue? c).map (n * 16 + ·)) 0

/-- A group of an IPv6 address: one to four hexadecimal digits. -/
def group? (cs : List Char) : Option Nat :=
  if cs = [] ∨ 4 < cs.length then none else hexDigits? cs

/-- The groups of a part of an IPv6 address. An IPv4 address at its end stands for two groups,
where that is allowed. -/
def groups? (allowIpv4 : Bool) (cs : List Char) : Option (List Nat) :=
  if cs = [] then some []
  else
    let parts := splitChars ':' cs
    let front := parts.dropLast
    let back := parts.getLastD []
    match front.mapM group?, group? back, Ipv4.ofChars? back with
    | some gs, some g, _ => some (gs ++ [g])
    | some gs, none, some a =>
      if allowIpv4 then some (gs ++ [a.value / UInt16.size, a.value % UInt16.size]) else none
    | _, _, _ => none

/-- Splits at the first pair of colons. -/
def splitPair : List Char → List Char × Option (List Char)
  | ':' :: ':' :: rest => ([], some rest)
  | c :: rest =>
    let (front, back) := splitPair rest
    (c :: front, back)
  | [] => ([], none)

/-- An IPv6 address: eight groups, or fewer with a pair of colons that stands for the missing
ones, of which there is one at least. -/
def ipv6? (cs : List Char) : Option (List Nat) :=
  match splitPair cs with
  | (all, none) => (groups? true all).filter fun gs => gs.length = 8
  | (front, some back) =>
    match groups? false front, groups? true back with
    | some head, some tail =>
      if head.length + tail.length < 8 then
        some (head ++ List.replicate (8 - head.length - tail.length) 0 ++ tail)
      else
        none
    | _, _ => none

/-- A number in digits, zeros in front allowed, below a bound. -/
def numberBelow? (bound : Nat) (cs : List Char) : Option Nat :=
  if cs = [] ∨ !cs.all Char.isDigit then none
  else
    let n := cs.foldl (fun n c => n * 10 + (c.toNat - '0'.toNat)) 0
    if n < bound then some n else none

def port? (cs : List Char) : Option Nat :=
  numberBelow? UInt16.size cs

/-- The IPv6 address between brackets, with its zone behind a percent sign. -/
def bracketed? (cs : List Char) : Option HostAddress := do
  let groups ← ipv6? (cs.takeWhile (· ≠ '%'))
  match cs.dropWhile (· ≠ '%') with
  | [] => return .v6 groups 0
  | _ :: zone => return .v6 groups (← numberBelow? UInt32.size zone)

/-- The address and port that a text spells. -/
def Socket.ofText? (s : String) : Option Socket :=
  match s.toList with
  | '[' :: cs => do
    let host ← bracketed? (cs.takeWhile (· ≠ ']'))
    match cs.dropWhile (· ≠ ']') with
    | ']' :: ':' :: port => return ⟨host, ← port? port⟩
    | _ => none
  | cs => do
    let address ← Ipv4.ofChars? (cs.takeWhile (· ≠ ':'))
    match cs.dropWhile (· ≠ ':') with
    | _ :: port => return ⟨.v4 address, ← port? port⟩
    | [] => none

end MinerFleet
