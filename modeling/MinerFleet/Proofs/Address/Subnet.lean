/-
How many hosts a network has.

* `prefixLength?_eq_some` — a netmask has one number of leading bits, of at most 32;
* `Subnet.size_eq` — a network has as many hosts as any other under its netmask, wherever it
  stands among the addresses;
* `exists_hosts_iff` — so whether the hosts of a network can be scanned depends on its netmask
  alone.

A network is a block of addresses as long as `networkSize`, and it stands at a multiple of its
length (`Subnet.network_eq`). Such blocks divide all addresses evenly, and so the last one ends
where the addresses do (`Subnet.network_add_le`). In bits, the lowest address of a network is what
the netmask keeps of any other (`Subnet.network_eq_land`).
-/
import MinerFleet.Proofs.Json.Fields
import MinerFleet.Address.Subnet

namespace MinerFleet

/-! ### Netmasks -/

theorem networkSize_pos (bits : Nat) : 0 < networkSize bits :=
  Nat.two_pow_pos _

theorem networkSize_mul {bits : Nat} (h : bits ≤ 32) :
    networkSize bits * Nat.pow 2 bits = 0x100000000 := by
  have hpow := Nat.pow_add 2 (32 - bits) bits
  rw [Nat.sub_add_cancel h] at hpow
  exact hpow.symm

theorem networkSize_inj {bits bits' : Nat} (h : bits ≤ 32) (h' : bits' ≤ 32)
    (he : networkSize bits = networkSize bits') : bits = bits' := by
  have := (Nat.pow_right_inj (by decide)).mp he
  omega

/-- The leading ones of a netmask are those that its network leaves. -/
theorem prefixLength?_eq_some {mask : Ipv4} {bits : Nat} :
    prefixLength? mask = some bits ↔ bits ≤ 32 ∧ mask.value + networkSize bits = 0x100000000 := by
  rw [prefixLength?, List.find?_range_eq_some]
  simp only [decide_eq_true_eq, List.mem_range, Bool.not_eq_true', decide_eq_false_iff_not]
  constructor
  · rintro ⟨hsize, hlt, -⟩
    exact ⟨by omega, hsize⟩
  · rintro ⟨hle, hsize⟩
    refine ⟨hsize, by omega, fun bits' hlt hsize' => ?_⟩
    have := networkSize_inj (by omega) hle (by omega : networkSize bits' = networkSize bits)
    omega

theorem parseMask_eq_ok {s : String} {bits : Nat} :
    parseMask s = .ok bits ↔ ∃ mask, Ipv4.ofText? s = some mask ∧ prefixLength? mask = some bits := by
  rw [parseMask, parseIp]
  cases Ipv4.ofText? s with
  | none => simp [bind_eq_ok]
  | some mask =>
    rw [bind_eq_ok]
    cases hp : prefixLength? mask with
    | none => simp [hp]
    | some bits' => simp [hp, pure_eq_ok]

/-! ### Bits of addresses -/

theorem testBit_leading {bits : Nat} (h : bits ≤ 32) (i : Nat) :
    (networkSize bits * (Nat.pow 2 bits - 1)).testBit i = decide (32 - bits ≤ i ∧ i < 32) := by
  have hsize : networkSize bits = 2 ^ (32 - bits) := rfl
  have hones : Nat.pow 2 bits = 2 ^ bits := rfl
  rw [hsize, hones, Nat.testBit_two_pow_mul, Nat.testBit_two_pow_sub_one, ← Bool.decide_and,
    decide_eq_decide]
  omega

theorem Ipv4.testBit_value (a : Ipv4) {i : Nat} (h : 32 ≤ i) : a.value.testBit i = false := by
  refine Nat.testBit_lt_two_pow (Nat.lt_of_lt_of_le a.value_lt ?_)
  exact Nat.pow_le_pow_right (n := 2) (by decide) h

/-! ### Networks -/

namespace Subnet

variable (n : Subnet)

theorem network_eq : n.network = networkSize n.bits * (n.member.value / networkSize n.bits) := by
  have := Nat.div_add_mod n.member.value (networkSize n.bits)
  rw [network]
  omega

variable {n}

/-- A network has all its addresses, also where the addresses end. -/
theorem network_add_le (h : n.bits ≤ 32) : n.network + networkSize n.bits ≤ 0x100000000 := by
  have hblocks := networkSize_mul h
  have hmember : n.member.value / networkSize n.bits < Nat.pow 2 n.bits := by
    refine Nat.div_lt_of_lt_mul ?_
    rw [hblocks]
    exact n.member.value_lt
  calc n.network + networkSize n.bits
      = networkSize n.bits * (n.member.value / networkSize n.bits + 1) := by
        rw [network_eq, Nat.mul_succ]
    _ ≤ networkSize n.bits * Nat.pow 2 n.bits := Nat.mul_le_mul_left _ hmember
    _ = 0x100000000 := hblocks

theorem value_first (h : n.bits ≤ 32) :
    n.first.value = min (n.network + 1) 0xffffffff := by
  have := network_add_le h
  have := networkSize_pos n.bits
  rw [first]
  split <;> simp only [Ipv4.highest] <;> omega

theorem value_last (h : n.bits ≤ 32) : n.last.value = n.broadcast - 1 := by
  have := network_add_le h
  rw [last, dif_pos (by rw [broadcast]; omega)]

/-- Every network with a netmask has as many hosts. Where the network stands at an end of the
addresses its first or its last host is pushed back, but only where it has none. -/
theorem size_eq (h : n.bits ≤ 32) : n.size = networkSize n.bits - 2 := by
  have := network_add_le h
  have := networkSize_pos n.bits
  rw [size, value_first h, value_last h, broadcast]
  omega

/-! ### Bits -/

section

variable {mask : Ipv4} (h : prefixLength? mask = some n.bits)
include h

theorem value_mask : mask.value = networkSize n.bits * (Nat.pow 2 n.bits - 1) := by
  obtain ⟨hbits, hmask⟩ := prefixLength?_eq_some.mp h
  have := networkSize_mul hbits
  rw [Nat.mul_sub_one]
  omega

/-- The lowest address has the bits of the others that the netmask keeps. -/
theorem network_eq_land : n.network = n.member.value &&& mask.value := by
  obtain ⟨hbits, -⟩ := prefixLength?_eq_some.mp h
  have hsize : networkSize n.bits = 2 ^ (32 - n.bits) := rfl
  apply Nat.eq_of_testBit_eq
  intro i
  rw [Nat.testBit_and, value_mask h, testBit_leading hbits, network_eq, hsize,
    Nat.testBit_two_pow_mul, Nat.testBit_div_two_pow]
  by_cases hlow : 32 - n.bits ≤ i
  · rw [Nat.sub_add_cancel hlow]
    by_cases hhigh : i < 32
    · simp [hlow, hhigh]
    · simp [n.member.testBit_value (Nat.not_lt.mp hhigh)]
  · simp [hlow]

/-- The highest address has those bits, and all that the netmask does not keep. -/
theorem broadcast_eq_lor : n.broadcast = n.network ||| (0xffffffff - mask.value) := by
  obtain ⟨-, hmask⟩ := prefixLength?_eq_some.mp h
  have hsize : networkSize n.bits = 2 ^ (32 - n.bits) := rfl
  have hpos := networkSize_pos n.bits
  have hrest : 0xffffffff - mask.value = networkSize n.bits - 1 := by omega
  generalize hblock : n.member.value / networkSize n.bits = block
  rw [broadcast, hrest, network_eq, hblock, Nat.add_sub_assoc hpos, hsize]
  exact Nat.two_pow_add_eq_or_of_lt (Nat.sub_one_lt (Nat.ne_of_gt hpos)) block

end

end Subnet

/-! ### Hosts -/

theorem hostCount_eq_ok {netmask : String} {count : Nat} :
    hostCount netmask = .ok count ↔
      ∃ bits, parseMask netmask = .ok bits ∧ networkSize bits - 2 = count := by
  rw [hostCount, bind_eq_ok]
  simp only [pure_eq_ok]

theorem parse_eq_ok {ip netmask : String} {n : Subnet} :
    Subnet.parse ip netmask = .ok n ↔
      Ipv4.ofText? ip = some n.member ∧ parseMask netmask = .ok n.bits := by
  rw [Subnet.parse, parseIp]
  cases Ipv4.ofText? ip with
  | none => simp [bind_eq_ok]
  | some member =>
    rw [bind_eq_ok]
    simp only [Except.ok.injEq, exists_eq_left', bind_eq_ok, pure_eq_ok, Option.some.injEq]
    constructor
    · rintro ⟨bits, hbits, rfl⟩
      exact ⟨rfl, hbits⟩
    · rintro ⟨rfl, hbits⟩
      exact ⟨n.bits, hbits, rfl⟩

theorem hosts_eq_ok {ip netmask : String} {addresses : List String} :
    hosts ip netmask = .ok addresses ↔
      ∃ n, Subnet.parse ip netmask = .ok n ∧ n.hosts = addresses ∧
        networkSize n.bits - 2 ≤ maxScanHosts := by
  rw [hosts, bind_eq_ok]
  refine exists_congr fun n => and_congr_right fun hn => ?_
  obtain ⟨mask, -, hbits⟩ := parseMask_eq_ok.mp (parse_eq_ok.mp hn).2
  rw [Subnet.size_eq (prefixLength?_eq_some.mp hbits).1]
  by_cases hmany : maxScanHosts < networkSize n.bits - 2
  · rw [if_pos hmany]
    constructor
    · rintro ⟨⟩
    · rintro ⟨-, hfew⟩
      omega
  · rw [if_neg hmany]
    simp only [pure_eq_ok]
    exact (and_iff_left (Nat.not_lt.mp hmany)).symm

/-- Whether the hosts of a network can be scanned depends on its netmask alone: on the number of
hosts that is computed without looking at the network. -/
theorem exists_hosts_iff {ip netmask : String} :
    (∃ addresses, hosts ip netmask = .ok addresses) ↔
      isIpLiteral ip = true ∧ ∃ count, hostCount netmask = .ok count ∧ count ≤ maxScanHosts := by
  constructor
  · rintro ⟨addresses, h⟩
    obtain ⟨n, hn, -, hfew⟩ := hosts_eq_ok.mp h
    obtain ⟨hmember, hbits⟩ := parse_eq_ok.mp hn
    refine ⟨?_, _, hostCount_eq_ok.mpr ⟨n.bits, hbits, rfl⟩, hfew⟩
    rw [isIpLiteral, hmember, Option.isSome_some]
  · rintro ⟨hip, count, hcount, hfew⟩
    obtain ⟨member, hmember⟩ := Option.isSome_iff_exists.mp hip
    obtain ⟨bits, hbits, rfl⟩ := hostCount_eq_ok.mp hcount
    exact ⟨_, hosts_eq_ok.mpr ⟨⟨member, bits⟩, parse_eq_ok.mpr ⟨hmember, hbits⟩, rfl, hfew⟩⟩

/-- Not more hosts are scanned than may be. -/
theorem length_hosts_le {ip netmask : String} {addresses : List String}
    (h : hosts ip netmask = .ok addresses) : addresses.length ≤ maxScanHosts := by
  obtain ⟨n, hn, rfl, hfew⟩ := hosts_eq_ok.mp h
  obtain ⟨mask, -, hbits⟩ := parseMask_eq_ok.mp (parse_eq_ok.mp hn).2
  rw [Subnet.hosts, List.length_map, List.length_range,
    Subnet.size_eq (prefixLength?_eq_some.mp hbits).1]
  exact hfew

end MinerFleet
