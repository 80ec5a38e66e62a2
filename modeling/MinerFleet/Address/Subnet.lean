/-
The hosts of a network.

* `prefixLength?` — how many leading bits a netmask has, if it is one;
* `Subnet` — the network of an address under a netmask, with its first and its last host;
* `hostCount` — how many hosts any network with a netmask has;
* `hosts` — the hosts of a network, as long as they are not too many to scan.

The hosts of a network are its addresses but the lowest, which names the network, and the
highest, which reaches all of them. Networks of one or two addresses have no hosts.
-/
import MinerFleet.Address.Ipv4
import MinerFleet.Fault

namespace MinerFleet

/-- The most hosts that are scanned: those of a network of two to the 16 addresses. -/
def maxScanHosts : Nat := 65534

/-- The address that a text spells. -/
def parseIp (s : String) : Except Fault Ipv4 :=
  match Ipv4.ofText? s with
  | some a => .ok a
  | none => .error (.invalidAddress s)

/-- The number of addresses in a network with `bits` leading bits. -/
def networkSize (bits : Nat) : Nat :=
  Nat.pow 2 (32 - bits)

/-- The number of leading ones of an address that has only zeros behind them. -/
def prefixLength? (mask : Ipv4) : Option Nat :=
  (List.range 33).find? fun bits => mask.value + networkSize bits = 0x100000000

/-- The number of leading bits of the netmask that a text spells. -/
def parseMask (s : String) : Except Fault Nat := do
  let mask ← parseIp s
  match prefixLength? mask with
  | some bits => return bits
  | none => throw (.invalidAddress mask.text)

/-- A network: one of its addresses and the number of leading bits that all of them share. -/
structure Subnet where
  member : Ipv4
  bits : Nat

namespace Subnet

/-- The network of an address under a netmask. -/
def parse (ip netmask : String) : Except Fault Subnet := do
  let member ← parseIp ip
  return ⟨member, ← parseMask netmask⟩

/-- The lowest address. -/
def network (n : Subnet) : Nat :=
  n.member.value - n.member.value % networkSize n.bits

/-- The highest address. -/
def broadcast (n : Subnet) : Nat :=
  n.network + networkSize n.bits - 1

/-- The first host, or the last address of all if there is no address behind the network. -/
def first (n : Subnet) : Ipv4 :=
  if h : n.network + 1 < 0x100000000 then ⟨n.network + 1, h⟩ else .highest

/-- The last host; it stands before the first when the network has no hosts. -/
def last (n : Subnet) : Ipv4 :=
  if h : n.broadcast - 1 < 0x100000000 then ⟨n.broadcast - 1, h⟩ else .highest

/-- The number of hosts. -/
def size (n : Subnet) : Nat :=
  n.last.value + 1 - n.first.value

/-- The hosts in increasing order. -/
def hosts (n : Subnet) : List String :=
  (List.range n.size).map fun i => (Ipv4.ofNat (n.first.value + i)).text

end Subnet

/-- How many hosts any network with a netmask has. -/
def hostCount (netmask : String) : Except Fault Nat := do
  return networkSize (← parseMask netmask) - 2

/-- The hosts of the network of an address under a netmask, unless they are too many. -/
def hosts (ip netmask : String) : Except Fault (List String) := do
  let subnet ← Subnet.parse ip netmask
  if maxScanHosts < subnet.size then
    throw (.scanTarget (netmask ++ " spans " ++ toString subnet.size ++ " hosts, more than "
      ++ toString maxScanHosts))
  return subnet.hosts

end MinerFleet
