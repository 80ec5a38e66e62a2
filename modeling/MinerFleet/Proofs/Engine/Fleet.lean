/-
No miner of a fleet is lost, and none is invented.

* `Device.Apart` — two records that share neither of their addresses;
* `Accounts` — which miners there are after an event, given those before it and what the event has
  replied.

`no_miner_lost_or_invented` is about every engine and every event. It needs that no two miners are
dialed at the same address only where a refresh ends: each record then becomes the result that was
found under its own address.
-/
import MinerFleet.Proofs.Engine.Effects

namespace MinerFleet

/-- Two records that share neither the address they were added by nor the one that is dialed. -/
def Device.Apart (a b : Device) : Prop :=
  a.address ≠ b.address ∧ a.connectionAddress ≠ b.connectionAddress

theorem Device.sameIdentity_eq_false {a b : Device} : a.sameIdentity b = false ↔ a.Apart b := by
  rw [sameIdentity, Bool.or_eq_false_iff, decide_eq_false_iff_not, decide_eq_false_iff_not, Apart]

/-- The miners after an event, up to their order.

* A miner is taken out exactly if the request is answered with it.
* A miner is added exactly if the request is answered with it, where none was dialed before.
* A discovery adds as many of the miners found as it counts, apart from each other and from all
  that were there.
* A refresh makes of each miner what it has found under its address, and keeps the record of all
  others.
* Nothing else changes the fleet. -/
def Accounts (before : List Device) (replies : List (Nat × Except Fault Answer))
    (after : List Device) (lastPass : Option PassSummary) : Event → Prop
  | .command ticket (.remove name) =>
    (∃ d ∈ before, replies = [(ticket, .ok (.device d))] ∧ d.isKnownAs (Text.trim name) = true ∧
      before.Perm (d :: after)) ∨
    ((∀ d, (ticket, .ok (.device d)) ∉ replies) ∧ after.Perm before)
  | .finished (.probed result ticket) =>
    (∃ d, result = .ok d ∧ replies = [(ticket, .ok (.device d))] ∧
      d.connectionAddress ∉ dialed before ∧ after.Perm (d :: before)) ∨
    ((∀ d, (ticket, .ok (.device d)) ∉ replies) ∧ after.Perm before)
  | .finished (.discovered (.ok report)) =>
    ∃ new, new.Sublist report.devices ∧ after.Perm (before ++ new) ∧
      lastPass = some (.discovery report.devices.length new.length) ∧
      new.Pairwise Device.Apart ∧ ∀ b ∈ before, ∀ d ∈ new, b.Apart d
  | .finished (.refreshed report) =>
    after.Perm (before.map (Registry.updated report.devices)) ∧ (dialed after).Perm (dialed before)
  | _ => after.Perm before

namespace Engine

variable {σ : Type} [Store σ]

/-- A discovery that has ended counts the newcomers. -/
theorem lastPass_of_discovered (e : Engine σ) (report : Report) :
    (e.step (.finished (.discovered (.ok report)))).1.lastPass =
      some (.discovery report.devices.length
        (Registry.newcomers e.registry.devices report.devices).length) := by
  rw [step_fst, handle, finish]
  rcases (discovered_cases { e with inFlight := e.inFlight - 1 } (.ok report)).2.2.2 with
    ⟨fault, he, -⟩ | ⟨report', he, -, hl⟩
  · cases he
  · cases he
    rw [hl, (Registry.perm_merge e.registry report.devices).2]

/-- Whatever happens to an engine, in whatever state it is, every miner that it gains or loses is
accounted for. -/
theorem no_miner_lost_or_invented (e : Engine σ) (event : Event)
    (h : DialedOnce e.registry.devices) :
    Accounts e.registry.devices (answers (e.step event).2) (e.step event).1.registry.devices
      (e.step event).1.lastPass event := by
  have hf := step_fleet e event
  have hlast := lastPass_of_discovered e
  generalize answers (e.step event).2 = replies at hf
  generalize (e.step event).1.registry.devices = after at hf
  cases hf with
  | removed hd hk hp => exact .inl ⟨_, hd, rfl, hk, hp⟩
  | added hd hp => exact .inl ⟨_, rfl, rfl, hd, hp⟩
  | discovered hp =>
    refine ⟨_, Registry.newcomers_sublist _ _, hp, hlast _, ?_, fun b hb d hd => ?_⟩
    · exact (Registry.pairwise_newcomers _ _).imp Device.sameIdentity_eq_false.mp
    · exact Device.sameIdentity_eq_false.mp (Registry.not_sameIdentity_of_mem_newcomers hb hd)
  | refreshed hp =>
    have hdialed := perm_dialed hp
    rw [Registry.dialed_replaceFrom] at hdialed
    rw [Registry.replaceFrom_eq_map h fun a ha => absurd ha List.not_mem_nil] at hp
    exact ⟨hp, hdialed⟩
  | kept hp hdisc hrefr ha =>
    have hnone : ∀ ticket d, (ticket, .ok (.device d)) ∉ replies := fun _ _ => not_given ha
    cases event with
    | start => exact hp
    | tick => exact hp
    | command ticket c =>
      cases c with
      | remove name => exact .inr ⟨hnone ticket, hp⟩
      | scan => exact hp
      | refresh => exact hp
      | add name => exact hp
      | settings changes => exact hp
    | finished result =>
      cases result with
      | probed result ticket => exact .inr ⟨hnone ticket, hp⟩
      | refreshed report => exact absurd rfl (hrefr report)
      | discovered result =>
        cases result with
        | error fault => exact hp
        | ok report => exact absurd rfl (hdisc report)

/-- A refresh that has found one of two miners. -/
theorem no_miner_lost_or_invented_of_two :
    let e := (Engine.make default twoMiners).1
    let event := Event.finished (.refreshed ⟨[{ connectionAddress := "10.1.1.60" }], []⟩)
    DialedOnce e.registry.devices ∧
      Accounts e.registry.devices [] (e.step event).1.registry.devices
        (some (.refresh 1 [])) event := by
  intro e event
  have h : DialedOnce e.registry.devices := by decide +kernel
  exact ⟨h, no_miner_lost_or_invented e event h⟩

end Engine

end MinerFleet
