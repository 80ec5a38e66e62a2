/-
What miners are called: names of hosts, and the order of addresses.

* `isLabel` — one label: letters, digits and hyphens, no hyphen at an end;
* `isHostName` — a label, alone or in the domain `.local`;
* `isPeer` — what a device may be called when it is added: an IPv4 address or such a name;
* `compareAddresses` — IPv4 addresses by their numbers and before all names, names in natural
  order.
-/
import MinerFleet.Address.Ipv4
import MinerFleet.Text.NaturalOrder

namespace MinerFleet

/-- A letter, digit or hyphen of a label. -/
def isLabelChar (c : Char) : Bool :=
  c.isAlphanum || c == '-'

/-- One label of one to 63 characters. -/
def isLabel (cs : List Char) : Bool :=
  1 ≤ cs.length && cs.length ≤ 63 && cs.all isLabelChar
    && cs.head? != some '-' && cs.getLast? != some '-'

/-- The part of a name in front of `.local`, if it ends so. -/
def localLabel? (cs : List Char) : Option (List Char) :=
  let domain := ".local".toList
  if domain.isSuffixOf cs then some (cs.take (cs.length - domain.length)) else none

/-- A label, alone or in the domain `.local`, and no IPv4 address. -/
def isHostName (s : String) : Bool :=
  !isIpLiteral s && (isLabel s.toList || (localLabel? s.toList).any isLabel)

/-- An IPv4 address or the name of a host. -/
def isPeer (s : String) : Bool :=
  isIpLiteral s || isHostName s

/-- IPv4 addresses by number, before everything else; everything else in natural order. -/
def compareAddresses (a b : String) : Ordering :=
  match Ipv4.ofText? a, Ipv4.ofText? b with
  | some x, some y => compare x.value y.value
  | some _, none => .lt
  | none, some _ => .gt
  | none, none => Text.naturalCompare a b

end MinerFleet
