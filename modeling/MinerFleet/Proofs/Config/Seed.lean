/-
Whether a seed is among those that a discovery asks.

* `HostsOf.mem_self_iff` — when an address is a host of its own network;
* `seed_is_asked_iff` — a seed is asked unless its address names its network or reaches all of it.

A discovery asks the hosts of the network of its seed (`hosts_of_own_network`). The address of the
seed has the bits of this network, and so the only question is what stands in its other bits.
-/
import MinerFleet.Proofs.Address.Hosts
import MinerFleet.Proofs.Config.Discovery

namespace MinerFleet

/-- An address is a host of its own network unless it is the lowest or the highest of it. -/
theorem HostsOf.mem_self_iff {a mask : Ipv4} {addresses : List Ipv4}
    (h : HostsOf a mask addresses) :
    a ∈ addresses ↔ a.value ≠ a.value &&& mask.value ∧
      a.value ≠ (a.value &&& mask.value) ||| (0xffffffff - mask.value) := by
  rw [h.mem_iff]
  exact and_iff_right rfl

/-- Hosts that are found are those of an address under a netmask. -/
theorem exists_hostsOf {ip netmask : String} {addresses : List String}
    (h : hosts ip netmask = .ok addresses) :
    ∃ a mask as, Ipv4.ofText? ip = some a ∧ Ipv4.Spells netmask mask ∧ HostsOf a mask as ∧
      addresses = as.map Ipv4.text := by
  obtain ⟨n, hn, rfl, -⟩ := hosts_eq_ok.mp h
  obtain ⟨ha, hbits⟩ := parse_eq_ok.mp hn
  obtain ⟨mask, hmask, hprefix⟩ := parseMask_eq_ok.mp hbits
  exact ⟨n.member, mask, n.addresses, ha, ⟨hmask, Ipv4.isNetmask_iff.mpr ⟨_, hprefix⟩⟩,
    hostsOf_addresses hprefix, n.hosts_eq⟩

namespace Network

variable {net : Network} {seed netmask : String} {addresses : List String}

theorem scanTargets_of_targets (h : net.targets seed netmask = .ok addresses) :
    scanTargets seed netmask (net.answer seed) = .ok addresses := by
  rw [targets] at h
  split at h
  · exact h
  · cases h

/-- A discovery that finds somebody to ask asks its seed, too, unless the seed cannot be told from
its network: the address that the seed reports, or else goes by, is among those that are asked if
and only if the bits that its netmask leaves are neither all zeros nor all ones. -/
theorem seed_is_asked_iff (h : net.targets seed netmask = .ok addresses) :
    ∃ a mask, Ipv4.ofText? (ownAddress (net.answer seed) seed) = some a ∧
      Ipv4.Spells (ownNetmask (net.answer seed) netmask) mask ∧
      (ownAddress (net.answer seed) seed ∈ addresses ↔
        a.value ≠ a.value &&& mask.value ∧
          a.value ≠ (a.value &&& mask.value) ||| (0xffffffff - mask.value)) := by
  obtain ⟨a, mask, as, ha, hmask, hof, rfl⟩ :=
    exists_hostsOf (hosts_of_own_network (scanTargets_of_targets h))
  refine ⟨a, mask, ha, hmask, ?_⟩
  rw [← hof.mem_self_iff, ← Ipv4.text_of_ofText? ha, List.mem_map_of_injective Ipv4.text_injective]

/-- A network in which a seed that goes by its name reports where it is. -/
def reporting : Network :=
  { silent with
    info := fun address =>
      if address = "gamma.local" then
        .after 20 (.ok (.record
          [("currentIP", .string "10.2.0.6"), ("netmask", .string "255.255.255.252")]))
      else .never }

/-- A seed that reports its address is asked, together with its neighbour. -/
theorem reporting_seed_is_asked :
    reporting.targets "gamma.local" "255.255.255.0" = .ok ["10.2.0.5", "10.2.0.6"] ∧
      ownAddress (reporting.answer "gamma.local") "gamma.local" ∈ ["10.2.0.5", "10.2.0.6"] := by
  have htargets : reporting.targets "gamma.local" "255.255.255.0" =
      .ok ["10.2.0.5", "10.2.0.6"] := by
    decide +kernel
  have haddress : Ipv4.ofText? (ownAddress (reporting.answer "gamma.local") "gamma.local") =
      some ⟨0x0a020006, by decide⟩ := by
    decide +kernel
  have hnetmask : Ipv4.ofText? (ownNetmask (reporting.answer "gamma.local") "255.255.255.0") =
      some ⟨0xfffffffc, by decide⟩ := by
    decide +kernel
  obtain ⟨a, mask, ha, ⟨hmask, -⟩, hasked⟩ := seed_is_asked_iff htargets
  obtain rfl := Option.some.inj (haddress.symm.trans ha)
  obtain rfl := Option.some.inj (hnetmask.symm.trans hmask)
  exact ⟨htargets, hasked.mpr (by decide)⟩

/-- A seed that is alone in its network is not asked. -/
theorem seed_alone_is_not_asked :
    ¬∀ (net : Network) (seed netmask : String) (addresses : List String),
      net.targets seed netmask = .ok addresses →
        ownAddress (net.answer seed) seed ∈ addresses := by
  intro h
  have hasked := h silent "10.1.1.50" "255.255.255.255" [] (by decide +kernel)
  cases hasked

end Network

end MinerFleet
