/-
Settings that are accepted are enough for a discovery.

* `Network.targets` — the addresses that a discovery asks, once its seed has been asked;
* `Network.Reticent` — a seed says nothing about its network, or does not answer at all.

A netmask is checked before there is a network, by the number of hosts of any network with it. That
is the number that counts when a network is scanned (`exists_hosts_iff`), and so a netmask that is
accepted never stands in the way of a discovery, and one under which a network can be scanned is
accepted (`accepted_settings_suffice`).
-/
import Mathlib.Logic.Function.Basic
import MinerFleet.Config
import MinerFleet.Proofs.Address.Order
import MinerFleet.Proofs.Address.Subnet
import MinerFleet.Proofs.Probe.Pass
import MinerFleet.Proofs.Probe.Results

namespace MinerFleet

/-! ### Blanks -/

/-- Characters that none of which is blank have nothing to lose. -/
theorem Text.trimChars_eq_self {cs : List Char} (h : cs.all (fun c => !isBlank c) = true) :
    trimChars cs = cs := by
  have hfront (cs : List Char) (h : ∀ c ∈ cs, isBlank c = false) : cs.dropWhile isBlank = cs := by
    cases cs with
    | nil => rfl
    | cons c cs => exact List.dropWhile_cons_of_neg (by simp [h c List.mem_cons_self])
  have hplain : ∀ c ∈ cs, isBlank c = false := by simpa using h
  rw [trimChars, hfront cs hplain, hfront cs.reverse (by simpa using hplain),
    List.reverse_reverse]

theorem Ipv4.toString_plain {n : Nat} (hn : n < 256) :
    (toString n).toList.all (fun c => !Text.isBlank c) = true := by
  have hall : ∀ n : Fin 256, (toString n.val).toList.all (fun c => !Text.isBlank c) = true := by
    decide +kernel
  exact hall ⟨n, hn⟩

/-- An address is written without blanks. -/
theorem Ipv4.trim_of_ofText? {s : String} {a : Ipv4} (h : ofText? s = some a) :
    Text.trim s = s := by
  have hlt := a.value_lt
  have hdot : ".".toList.all (fun c => !Text.isBlank c) = true := by decide
  have hplain : a.text.toList.all (fun c => !Text.isBlank c) = true := by
    simp only [text, octets, List.map_cons, List.map_nil, Text.joinWith, String.toList_append,
      List.all_append, hdot, Bool.and_true, Bool.and_eq_true]
    exact ⟨toString_plain (by omega), toString_plain (by omega), toString_plain (by omega),
      toString_plain (by omega)⟩
  rw [← text_of_ofText? h, Text.trim, Text.trimChars_eq_self hplain, String.ofList_toList]

/-! ### Settings -/

namespace Config

theorem setting_eq_ok {α : Type} {value : Option String} {read : String → Except Fault α}
    {default a : α} :
    setting value read default = .ok a ↔
      (∃ s, value = some s ∧ read s = .ok a) ∨ value = none ∧ default = a := by
  cases value with
  | none => simp [setting]
  | some s => simp [setting]

/-- Settings are accepted if each of them is. -/
theorem ofVariables_eq_ok {env : String → Option String} {config : Config} :
    ofVariables env = .ok config ↔
      setting (valueOf? env "AXE_SWARM_SEED") (fun s => (readSeed s).map some) none =
          .ok config.seed ∧
      setting (valueOf? env "AXE_SWARM_NETMASK") readNetmask ({} : Config).netmask =
          .ok config.netmask ∧
      setting (valueOf? env "AXE_SWARM_LISTEN") readListen ({} : Config).listen =
          .ok config.listen ∧
      setting (valueOf? env "AXE_SWARM_CONCURRENCY") readConcurrency ({} : Config).concurrency =
          .ok config.concurrency ∧
      setting (valueOf? env "AXE_SWARM_STALE_AFTER") readStaleAfter ({} : Config).staleAfter =
          .ok config.staleAfter ∧
      statePathOf env = config.statePath := by
  simp only [ofVariables, bind_eq_ok, pure_eq_ok]
  constructor
  · rintro ⟨seed, hseed, netmask, hnetmask, listen, hlisten, concurrency, hconcurrency, staleAfter,
      hstale, rfl⟩
    exact ⟨hseed, hnetmask, hlisten, hconcurrency, hstale, rfl⟩
  · rintro ⟨hseed, hnetmask, hlisten, hconcurrency, hstale, hpath⟩
    refine ⟨_, hseed, _, hnetmask, _, hlisten, _, hconcurrency, _, hstale, ?_⟩
    rw [hpath]

theorem readNetmask_eq_ok {value netmask : String} :
    readNetmask value = .ok netmask ↔
      value = netmask ∧ ∃ count, hostCount value = .ok count ∧ count ≤ maxScanHosts := by
  rw [readNetmask]
  cases hcount : hostCount value with
  | error fault => simp
  | ok count =>
    by_cases hfew : count ≤ maxScanHosts
    · simp [hfew]
    · simp [hfew]

section

variable {env : String → Option String} {config : Config}

theorem isPeer_of_seed (h : ofVariables env = .ok config) {seed : String}
    (hs : config.seed = some seed) : isPeer seed = true := by
  have hseed := (ofVariables_eq_ok.mp h).1
  rw [hs] at hseed
  rcases setting_eq_ok.mp hseed with ⟨value, -, hread⟩ | ⟨-, hnone⟩
  · obtain ⟨seed', haccepted, hsome⟩ := map_eq_ok.mp hread
    obtain rfl := Option.some.inj hsome
    rw [readSeed] at haccepted
    split at haccepted
    · rename_i hpeer
      rwa [← Except.ok.inj haccepted]
    · cases haccepted
  · cases hnone

theorem hostCount_of_netmask (h : ofVariables env = .ok config) :
    ∃ count, hostCount config.netmask = .ok count ∧ count ≤ maxScanHosts := by
  rcases setting_eq_ok.mp (ofVariables_eq_ok.mp h).2.1 with ⟨value, -, hread⟩ | ⟨-, hdefault⟩
  · obtain ⟨hvalue, hcount⟩ := readNetmask_eq_ok.mp hread
    rwa [← hvalue]
  · rw [← hdefault]
    exact ⟨254, by rfl, by decide⟩

theorem one_le_concurrency (h : ofVariables env = .ok config) : 1 ≤ config.concurrency := by
  rcases setting_eq_ok.mp (ofVariables_eq_ok.mp h).2.2.2.1 with ⟨value, -, hread⟩ | ⟨-, hdefault⟩
  · rw [readConcurrency] at hread
    split at hread
    · cases hread
    · rename_i hne _
      rw [← Except.ok.inj hread]
      exact Nat.pos_of_ne_zero fun hzero => hne (by rw [hzero])
    · cases hread
  · rw [← hdefault]
    decide

theorem valueOf?_of_ofText? {name value : String} {a : Ipv4} (hv : env name = some value)
    (ha : Ipv4.ofText? value = some a) : valueOf? env name = some value := by
  have hpeer : isPeer value = true := by
    rw [isPeer, isIpLiteral, ha, Option.isSome_some, Bool.true_or]
  rw [valueOf?, hv, Option.map_some, Ipv4.trim_of_ofText? ha]
  exact Option.filter_some_pos (by simpa using isPeer_ne_empty hpeer)

theorem valueOf?_update_of_ne (env : String → Option String) {name other : String}
    (value : Option String) (hne : other ≠ name) :
    valueOf? (Function.update env name value) other = valueOf? env other := by
  rw [valueOf?, valueOf?, Function.update_of_ne hne]

/-- A netmask under which a network can be scanned is accepted beside all other settings. -/
theorem ofVariables_update (h : ofVariables env = .ok config) {ip netmask : String}
    {addresses : List String} (hh : hosts ip netmask = .ok addresses) :
    ofVariables (Function.update env "AXE_SWARM_NETMASK" (some netmask)) =
      .ok { config with netmask := netmask } := by
  obtain ⟨-, hcount⟩ := exists_hosts_iff.mp ⟨addresses, hh⟩
  obtain ⟨n, hn, -⟩ := hosts_eq_ok.mp hh
  obtain ⟨mask, hmask, -⟩ := parseMask_eq_ok.mp (parse_eq_ok.mp hn).2
  have hvalue : valueOf? (Function.update env "AXE_SWARM_NETMASK" (some netmask))
      "AXE_SWARM_NETMASK" = some netmask :=
    valueOf?_of_ofText? (Function.update_self ..) hmask
  have hnetmask : setting (some netmask) readNetmask ({} : Config).netmask = .ok netmask :=
    setting_eq_ok.mpr (.inl ⟨netmask, rfl, readNetmask_eq_ok.mpr ⟨rfl, hcount⟩⟩)
  -- The other variables are read as before.
  have hother (other : String) (hne : other ≠ "AXE_SWARM_NETMASK") :=
    valueOf?_update_of_ne env (some netmask) hne
  obtain ⟨hseed, -, hlisten, hconcurrency, hstale, hpath⟩ := ofVariables_eq_ok.mp h
  rw [ofVariables_eq_ok, statePathOf, hvalue, hother "AXE_SWARM_SEED" (by decide),
    hother "AXE_SWARM_LISTEN" (by decide), hother "AXE_SWARM_CONCURRENCY" (by decide),
    hother "AXE_SWARM_STALE_AFTER" (by decide), hother "AXE_SWARM_STATE" (by decide)]
  exact ⟨hseed, hnetmask, hlisten, hconcurrency, hstale, hpath⟩

end

end Config

/-! ### Discoveries -/

namespace Network

variable (net : Network) (seed : String)

/-- What a seed has answered when nobody waits any longer. -/
def answer : Except ProbeFailure Json :=
  ((net.info seed).within probeLimit).2

/-- The addresses that a discovery asks, once its seed has been asked. -/
def targets (netmask : String) : Except Fault (List String) :=
  if isPeer seed then scanTargets seed netmask (net.answer seed) else .error (seedFault seed)

/-- A seed says nothing about its network, or does not answer at all. -/
structure Reticent : Prop where
  currentIP : addressField (net.answer seed) "currentIP" = none
  netmask : addressField (net.answer seed) "netmask" = none

theorem reticent_of_error {failure : ProbeFailure} (h : net.answer seed = .error failure) :
    net.Reticent seed := by
  constructor <;> rw [h] <;> rfl

variable {net seed}

/-- Where a seed says nothing, its name must be an address, and the netmask is the one that was
set. -/
theorem Reticent.targets_eq (h : net.Reticent seed) (netmask : String)
    (hs : isPeer seed = true) :
    net.targets seed netmask =
      if isIpLiteral seed then
        match hosts seed netmask with
        | .error (.scanTarget detail) => .error (.scanTarget detail)
        | .error fault => .error (.scanTarget fault.message)
        | .ok addresses => .ok addresses
      else .error (.scanTarget (seed ++ " did not report its current IP")) := by
  rw [targets, if_pos hs, scanTargets, h.currentIP, h.netmask]
  by_cases hip : isIpLiteral seed = true
  · simp only [if_pos hip]
    rfl
  · simp only [if_neg hip]
    rfl

variable (net seed)

/-- A discovery ends with a report if it has addresses to ask, and else says what is missing. -/
theorem discover_eq (netmask : String) (concurrency now : Nat) :
    (net.discover seed netmask concurrency now).2.2 =
      (net.targets seed netmask).map fun addresses =>
        (net.pass true (fun _ _ => none) concurrency (targetsAt addresses)
          (now + ((net.info seed).within probeLimit).1)).2.2 := by
  rw [discover, targets, answer]
  by_cases hs : isPeer seed = true
  · simp only [if_pos hs]
    cases scanTargets seed netmask ((net.info seed).within probeLimit).2 <;> rfl
  · simp only [if_neg hs]
    rfl

end Network

/-- Settings that are accepted are enough for a discovery, whatever their seed leaves unsaid. There
is room to ask somebody. From a seed that is an address, the hosts of its network under the netmask
that was set are asked, and there is a report. From any other seed, the only thing that can be
missing is the address that it did not report. And there is no netmask to scan a network under that
would not be accepted. -/
theorem accepted_settings_suffice {env : String → Option String} {config : Config}
    (h : Config.ofVariables env = .ok config) :
    1 ≤ config.concurrency ∧
    (∀ seed, config.seed = some seed → ∀ net : Network, net.Reticent seed →
      if isIpLiteral seed then
        ∃ addresses, hosts seed config.netmask = .ok addresses ∧
          net.targets seed config.netmask = .ok addresses ∧
          ∀ now, ∃ report, (Job.runFrom net
            (Job.discovery seed config.netmask config.concurrency).moments now
            ((Job.discovery seed config.netmask config.concurrency).begins net now)).2.2 =
              some (.discovered (.ok report))
      else
        net.targets seed config.netmask =
          .error (.scanTarget (seed ++ " did not report its current IP"))) ∧
    ∀ ip netmask addresses, hosts ip netmask = .ok addresses →
      Config.ofVariables (Function.update env "AXE_SWARM_NETMASK" (some netmask)) =
        .ok { config with netmask := netmask } := by
  refine ⟨Config.one_le_concurrency h, fun seed hs net hr => ?_,
    fun ip netmask addresses => Config.ofVariables_update h⟩
  have htargets := hr.targets_eq config.netmask (Config.isPeer_of_seed h hs)
  by_cases hip : isIpLiteral seed = true
  · obtain ⟨addresses, hhosts⟩ :=
      exists_hosts_iff.mpr ⟨hip, Config.hostCount_of_netmask h⟩
    rw [if_pos hip, hhosts] at htargets
    rw [if_pos hip]
    refine ⟨addresses, hhosts, htargets, fun now => ?_⟩
    rw [run_discovery, Network.discover_eq, htargets]
    exact ⟨_, rfl⟩
  · rw [if_neg hip] at htargets
    rwa [if_neg hip]

/-- The variables of a daemon with a small network. -/
def smallNetwork (name : String) : Option String :=
  match name with
  | "AXE_SWARM_SEED" => some " 192.168.1.20 "
  | "AXE_SWARM_NETMASK" => some "255.255.255.252"
  | "AXE_SWARM_CONCURRENCY" => some "4"
  | _ => none

/-- The seed does not answer, and its two neighbours are asked nevertheless. -/
theorem small_network_is_scanned :
    silent.targets "192.168.1.20" "255.255.255.252" = .ok ["192.168.1.21", "192.168.1.22"] ∧
    Config.ofVariables
        (Function.update smallNetwork "AXE_SWARM_NETMASK" (some "255.255.255.254")) =
      .ok { seed := "192.168.1.20", netmask := "255.255.255.254", concurrency := 4 } := by
  have haccepted : Config.ofVariables smallNetwork =
      .ok { seed := "192.168.1.20", netmask := "255.255.255.252", concurrency := 4 } := by
    decide +kernel
  obtain ⟨-, hseed, hnetmask⟩ := accepted_settings_suffice haccepted
  have hscan := hseed "192.168.1.20" rfl silent (silent.reticent_of_error "192.168.1.20" rfl)
  rw [if_pos (by decide +kernel)] at hscan
  obtain ⟨addresses, hhosts, htargets, -⟩ := hscan
  have hneighbours : hosts "192.168.1.20" "255.255.255.252" =
      .ok ["192.168.1.21", "192.168.1.22"] := by
    decide +kernel
  rw [hneighbours] at hhosts
  rw [Except.ok.inj hhosts]
  exact ⟨htargets, hnetmask "192.168.1.20" "255.255.255.254" [] (by decide +kernel)⟩

end MinerFleet
