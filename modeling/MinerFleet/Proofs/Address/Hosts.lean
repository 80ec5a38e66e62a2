/-
Which addresses are the hosts of a network.

* `Ipv4.IsNetmask` — the one bits of an address are its leading bits;
* `Subnet.addresses` — the hosts of a network, before they are written;
* `HostsOf` — the hosts of a network, told from all other addresses by their bits.

An address agrees with another one in the bits that a netmask keeps where both have the same lowest
address of their network (`Subnet.network_eq_land`), and so where it stands in the block of the
network (`Subnet.network_eq_iff`). The hosts are this block without its ends
(`Subnet.map_value_addresses`), which is said of their numbers, where no arithmetic goes around.
-/
import MinerFleet.Proofs.Address.Order
import MinerFleet.Proofs.Address.Subnet

namespace MinerFleet

/-! ### Netmasks -/

/-- The one bits are the leading ones. -/
def Ipv4.IsNetmask (mask : Ipv4) : Prop :=
  ∃ bits ≤ 32, ∀ i < 32, mask.value.testBit i = decide (32 - bits ≤ i)

/-- A netmask is an address that has a number of leading bits. -/
theorem Ipv4.isNetmask_iff {mask : Ipv4} :
    mask.IsNetmask ↔ ∃ bits, prefixLength? mask = some bits := by
  constructor
  · rintro ⟨bits, hle, hbits⟩
    have hvalue : mask.value = networkSize bits * (Nat.pow 2 bits - 1) := by
      apply Nat.eq_of_testBit_eq
      intro i
      rw [testBit_leading hle]
      by_cases hi : i < 32
      · simp [hbits i hi, hi]
      · simp [mask.testBit_value (Nat.not_lt.mp hi), hi]
    refine ⟨bits, prefixLength?_eq_some.mpr ⟨hle, ?_⟩⟩
    rw [hvalue, Nat.mul_sub_one, networkSize_mul hle]
    have := Nat.le_of_dvd (by decide) ⟨_, (networkSize_mul hle).symm⟩
    omega
  · rintro ⟨bits, hbits⟩
    have hle := (prefixLength?_eq_some.mp hbits).1
    refine ⟨bits, hle, fun i hi => ?_⟩
    rw [Subnet.value_mask (n := ⟨mask, bits⟩) hbits, testBit_leading hle]
    simp [hi]

/-! ### Networks -/

theorem Ipv4.value_injective : Function.Injective Ipv4.value := by
  rintro ⟨m, hm⟩ ⟨n, hn⟩ rfl
  rfl

namespace Subnet

variable {n : Subnet}

/-- An address has the lowest address of a network where it stands in the block of the network. -/
theorem network_eq_iff (b : Ipv4) :
    (⟨b, n.bits⟩ : Subnet).network = n.network ↔
      n.network ≤ b.value ∧ b.value < n.network + networkSize n.bits := by
  have hpos := networkSize_pos n.bits
  rw [network_eq, network_eq, Nat.mul_right_inj (Nat.ne_of_gt hpos), Nat.div_eq_iff hpos,
    Nat.mul_comm (networkSize n.bits)]
  show _ ≤ b.value ∧ b.value ≤ _ ↔ _
  omega

/-- The hosts in increasing order, before they are written. -/
def addresses (n : Subnet) : List Ipv4 :=
  (List.range n.size).map fun i => Ipv4.ofNat (n.first.value + i)

theorem hosts_eq (n : Subnet) : n.hosts = n.addresses.map Ipv4.text := by
  rw [hosts, addresses, List.map_map]
  rfl

section

variable (h : n.bits ≤ 32)
include h

/-- The numbers of the hosts follow each other, from the one behind the network on. -/
theorem map_value_addresses :
    n.addresses.map Ipv4.value = List.range' (n.network + 1) (networkSize n.bits - 2) := by
  have hblock := network_add_le h
  rw [addresses, List.map_map, size_eq h, List.range'_eq_map_range]
  refine List.map_congr_left fun i hi => ?_
  rw [List.mem_range] at hi
  show (n.first.value + i) % 0x100000000 = n.network + 1 + i
  rw [value_first h, Nat.mod_eq_of_lt (by omega)]
  omega

theorem length_addresses : n.addresses.length = networkSize n.bits - 2 := by
  rw [← List.length_map Ipv4.value, map_value_addresses h, List.length_range']

theorem pairwise_addresses : n.addresses.Pairwise (·.value < ·.value) := by
  rw [← List.pairwise_map, map_value_addresses h]
  exact List.pairwise_lt_range'

/-- A host is an address in the block of its network that stands at neither end. -/
theorem mem_addresses {b : Ipv4} :
    b ∈ n.addresses ↔
      (⟨b, n.bits⟩ : Subnet).network = n.network ∧ b.value ≠ n.network ∧
        b.value ≠ n.broadcast := by
  have hpos := networkSize_pos n.bits
  rw [← List.mem_map_of_injective Ipv4.value_injective, map_value_addresses h, List.mem_range'_1,
    network_eq_iff, broadcast]
  omega

/-- The number of the hosts fits into a word: taken in words as the distance of the first host
from the last, it comes out the same. -/
theorem count_in_words (hle : n.first.value ≤ n.last.value) :
    (UInt32.ofNat n.last.value - UInt32.ofNat n.first.value + 1).toNat =
      networkSize n.bits - 2 := by
  have hlast := n.last.value_lt
  have hfirst : n.first.value < 0x100000000 := by omega
  have hword : ∀ m < 0x100000000, (UInt32.ofNat m).toNat = m :=
    fun m hm => UInt32.toNat_ofNat_of_lt' hm
  -- The first host is not the lowest address of all, so that the sum stays in the word.
  have hpos : 0 < n.first.value := by
    rw [value_first h]
    omega
  rw [UInt32.toNat_add, UInt32.toNat_sub_of_le, hword _ hlast, hword _ hfirst, ← size_eq h, size]
  · show (_ + 1) % 0x100000000 = _
    omega
  · rwa [UInt32.le_iff_toNat_le, hword _ hlast, hword _ hfirst]

end

end Subnet

/-! ### Hosts -/

/-- What a text spells as a netmask. -/
def Ipv4.Spells (netmask : String) (mask : Ipv4) : Prop :=
  Ipv4.ofText? netmask = some mask ∧ mask.IsNetmask

/-- The hosts of the network of an address under a netmask, told by their bits: they have the bits
of the address that the netmask keeps, and neither only zeros nor only ones behind them. -/
structure HostsOf (a mask : Ipv4) (addresses : List Ipv4) : Prop where
  increasing : addresses.Pairwise (·.value < ·.value)
  mem_iff (b : Ipv4) : b ∈ addresses ↔
    b.value &&& mask.value = a.value &&& mask.value ∧ b.value ≠ a.value &&& mask.value ∧
      b.value ≠ (a.value &&& mask.value) ||| (0xffffffff - mask.value)

theorem hostsOf_addresses {n : Subnet} {mask : Ipv4} (h : prefixLength? mask = some n.bits) :
    HostsOf n.member mask n.addresses where
  increasing := Subnet.pairwise_addresses (prefixLength?_eq_some.mp h).1
  mem_iff b := by
    rw [Subnet.mem_addresses (prefixLength?_eq_some.mp h).1, Subnet.broadcast_eq_lor h,
      Subnet.network_eq_land h, Subnet.network_eq_land (n := ⟨b, n.bits⟩) h]

section

variable {ip netmask : String}

theorem hosts_of_not_ip (h : Ipv4.ofText? ip = none) :
    hosts ip netmask = .error (.invalidAddress ip) := by
  rw [hosts, Subnet.parse, parseIp, h]
  rfl

theorem parseMask_of_not_netmask (h : ¬∃ mask, Ipv4.Spells netmask mask) :
    parseMask netmask = .error (.invalidAddress netmask) := by
  rw [parseMask, bind_eq_error, parseIp]
  cases hmask : Ipv4.ofText? netmask with
  | none => exact .inl rfl
  | some mask =>
    refine .inr ⟨mask, rfl, ?_⟩
    cases hbits : prefixLength? mask with
    | none =>
      simp only [Ipv4.text_of_ofText? hmask]
      rfl
    | some bits => exact absurd ⟨mask, hmask, Ipv4.isNetmask_iff.mpr ⟨bits, hbits⟩⟩ h

variable {a mask : Ipv4} {bits : Nat} (ha : Ipv4.ofText? ip = some a)
include ha

theorem hosts_of_not_netmask (h : ¬∃ mask, Ipv4.Spells netmask mask) :
    hosts ip netmask = .error (.invalidAddress netmask) := by
  rw [hosts, Subnet.parse, parseIp, ha, parseMask_of_not_netmask h]
  rfl

variable (hbits : parseMask netmask = .ok bits)
include hbits

theorem hosts_of_netmask :
    hosts ip netmask = if maxScanHosts < networkSize bits - 2 then
      .error (.scanTarget (netmask ++ " spans " ++ toString (networkSize bits - 2) ++
        " hosts, more than " ++ toString maxScanHosts))
    else .ok ((Subnet.addresses ⟨a, bits⟩).map Ipv4.text) := by
  obtain ⟨mask, -, hmask⟩ := parseMask_eq_ok.mp hbits
  have hn : Subnet.parse ip netmask = .ok ⟨a, bits⟩ := parse_eq_ok.mpr ⟨ha, hbits⟩
  have hsize : Subnet.size ⟨a, bits⟩ = networkSize bits - 2 :=
    Subnet.size_eq (prefixLength?_eq_some.mp hmask).1
  rw [hosts, hn, ← Subnet.hosts_eq, ← hsize]
  rfl

end

/-- Only networks of one or two addresses have no hosts. -/
theorem hosts_eq_nil_iff {ip netmask : String} {a mask : Ipv4} {bits : Nat}
    (ha : Ipv4.ofText? ip = some a) (hm : Ipv4.ofText? netmask = some mask)
    (hbits : prefixLength? mask = some bits) :
    hosts ip netmask = .ok [] ↔ mask.value = 0xfffffffe ∨ mask.value = 0xffffffff := by
  obtain ⟨hle, hsum⟩ := prefixLength?_eq_some.mp hbits
  have hpos := networkSize_pos bits
  have hmask : parseMask netmask = .ok bits := parseMask_eq_ok.mpr ⟨mask, hm, hbits⟩
  have hlength : (Subnet.addresses ⟨a, bits⟩).length = networkSize bits - 2 :=
    Subnet.length_addresses hle
  rw [hosts_of_netmask ha hmask]
  constructor
  · intro hnil
    split at hnil
    · cases hnil
    · rw [List.map_eq_nil_iff.mp (Except.ok.inj hnil), List.length_nil] at hlength
      omega
  · intro hend
    have hnone : networkSize bits - 2 = 0 := by omega
    rw [hnone, List.length_eq_zero_iff] at hlength
    rw [hnone, if_neg (by decide), hlength, List.map_nil]

/-- What the hosts of a network are, for all texts. -/
theorem hosts_are_exact (ip netmask : String) :
    ((∃ s, hosts ip netmask = .error (.invalidAddress s)) ↔
      isIpLiteral ip = false ∨ ¬∃ mask, Ipv4.Spells netmask mask) ∧
    ∀ a mask, Ipv4.ofText? ip = some a → Ipv4.Spells netmask mask →
      ∃ count, hostCount netmask = .ok count ∧
        ((∃ s, hosts ip netmask = .error (.scanTarget s)) ↔ maxScanHosts < count) ∧
        (count ≤ maxScanHosts → ∃ addresses, hosts ip netmask = .ok (addresses.map Ipv4.text) ∧
          (addresses.map Ipv4.text).Nodup ∧ addresses.length = count ∧ HostsOf a mask addresses) ∧
        (hosts ip netmask = .ok [] ↔ mask.value = 0xfffffffe ∨ mask.value = 0xffffffff) ∧
        ∀ n, Subnet.parse ip netmask = .ok n → n.first.value ≤ n.last.value →
          (UInt32.ofNat n.last.value - UInt32.ofNat n.first.value + 1).toNat = count := by
  have hliteral : isIpLiteral ip = false ↔ Ipv4.ofText? ip = none := by
    rw [isIpLiteral, Option.isSome_eq_false_iff, Option.isNone_iff_eq_none]
  constructor
  · rw [hliteral]
    constructor
    · rintro ⟨s, hs⟩
      by_contra hno
      rw [not_or, not_not] at hno
      obtain ⟨hip, mask, hm, hnet⟩ := hno
      obtain ⟨a, ha⟩ := Option.ne_none_iff_exists'.mp hip
      obtain ⟨bits, hbits⟩ := Ipv4.isNetmask_iff.mp hnet
      rw [hosts_of_netmask ha (parseMask_eq_ok.mpr ⟨mask, hm, hbits⟩)] at hs
      split at hs <;> cases hs
    · intro hno
      cases ha : Ipv4.ofText? ip with
      | none => exact ⟨ip, hosts_of_not_ip ha⟩
      | some a => exact ⟨netmask, hosts_of_not_netmask ha (hno.resolve_left (by simp [ha]))⟩
  · rintro a mask ha ⟨hm, hnet⟩
    obtain ⟨bits, hbits⟩ := Ipv4.isNetmask_iff.mp hnet
    have hle := (prefixLength?_eq_some.mp hbits).1
    have hmask : parseMask netmask = .ok bits := parseMask_eq_ok.mpr ⟨mask, hm, hbits⟩
    have hhosts := hosts_of_netmask ha hmask
    refine ⟨networkSize bits - 2, hostCount_eq_ok.mpr ⟨bits, hmask, rfl⟩, ?_, ?_,
      hosts_eq_nil_iff ha hm hbits, ?_⟩
    · rw [hhosts]
      constructor
      · rintro ⟨s, hs⟩
        by_contra hfew
        rw [if_neg hfew] at hs
        cases hs
      · exact fun hmany => ⟨_, if_pos hmany⟩
    · intro hfew
      rw [← Nat.not_lt] at hfew
      rw [if_neg hfew] at hhosts
      have hof : HostsOf a mask (Subnet.addresses ⟨a, bits⟩) :=
        hostsOf_addresses (n := ⟨a, bits⟩) hbits
      refine ⟨_, hhosts, ?_, Subnet.length_addresses hle, hof⟩
      refine List.pairwise_map.mpr (hof.increasing.imp fun hlt he => ?_)
      exact Nat.ne_of_lt hlt (congrArg Ipv4.value (Ipv4.text_injective he))
    · intro n hn hfirst
      have hbits' := (parse_eq_ok.mp hn).2
      rw [hmask, Except.ok.injEq] at hbits'
      rw [hbits'] at hle ⊢
      exact Subnet.count_in_words hle hfirst

/-- The last four addresses of all are a network with two hosts. -/
theorem hosts_at_the_end :
    hostCount "255.255.255.252" = .ok 2 ∧ ∃ addresses,
      hosts "255.255.255.254" "255.255.255.252" = .ok (addresses.map Ipv4.text) ∧
        addresses.length = 2 ∧
        HostsOf ⟨0xfffffffe, by decide⟩ ⟨0xfffffffc, by decide⟩ addresses := by
  have hmask : Ipv4.ofText? "255.255.255.252" = some ⟨0xfffffffc, by decide⟩ := by
    decide +kernel
  have htwo : hostCount "255.255.255.252" = .ok 2 :=
    hostCount_eq_ok.mpr ⟨30, parseMask_eq_ok.mpr ⟨_, hmask, by decide +kernel⟩, rfl⟩
  obtain ⟨count, hcount, -, hhosts, -⟩ :=
    (hosts_are_exact "255.255.255.254" "255.255.255.252").2 ⟨0xfffffffe, by decide⟩
      ⟨0xfffffffc, by decide⟩ (by decide +kernel) ⟨hmask, 30, by decide, by decide +kernel⟩
  rw [htwo, Except.ok.injEq] at hcount
  subst hcount
  obtain ⟨addresses, hok, -, hlength, hof⟩ := hhosts (by decide)
  exact ⟨htwo, addresses, hok, hlength, hof⟩

end MinerFleet
