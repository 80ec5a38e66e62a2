/-
The orders of texts and of addresses are total.

* `text_orders_are_total` — natural order and the order of addresses give any two different texts
  one order, and natural order is what a walk through both texts comes to.

Texts that fold alike are told apart by their characters, and an address has one spelling
(`Ipv4.text_of_ofText?`); so nothing but a text itself stands where the text stands.
-/
import MinerFleet.Proofs.Address.Order
import MinerFleet.Proofs.Fleet.Sorting
import MinerFleet.Proofs.Text.Walk

namespace MinerFleet

/-- Natural order by the walk through two texts. -/
theorem Text.naturalCompare_eq_walk (a b : String) :
    naturalCompare a b = (walk a.toList b.toList).then (compare a b) := by
  rw [naturalCompare, foldedCompare_eq_walk]

section

variable {a b : String} {x y : Ipv4}

theorem compareAddresses_of_ipv4 (ha : Ipv4.ofText? a = some x) (hb : Ipv4.ofText? b = some y) :
    compareAddresses a b = compare x.value y.value := by
  rw [compareAddresses, ha, hb]

theorem compareAddresses_of_name (ha : isIpLiteral a = true) (hb : isIpLiteral b = false) :
    compareAddresses a b = .lt := by
  rw [isIpLiteral] at ha hb
  obtain ⟨x, hx⟩ := Option.isSome_iff_exists.mp ha
  have hy : Ipv4.ofText? b = none :=
    Option.isNone_iff_eq_none.mp (Option.isSome_eq_false_iff.mp hb)
  rw [compareAddresses, hx, hy]

end

/-- Natural order and the order of addresses are total orders of all texts. Each is what it is for
the two texts alone: natural order is what the walk through both of them comes to, and by
characters where this makes no difference. IPv4 addresses are ordered by their numbers, and stand
before all other texts. -/
theorem text_orders_are_total :
    TotalOrder Text.naturalCompare ∧ TotalOrder compareAddresses ∧
    (∀ a b, Text.naturalCompare a b = (Text.walk a.toList b.toList).then (compare a b)) ∧
    (∀ a b, isIpLiteral a = true → isIpLiteral b = false → compareAddresses a b = .lt) ∧
    ∀ a b x y, Ipv4.ofText? a = some x → Ipv4.ofText? b = some y →
      compareAddresses a b = compare x.value y.value :=
  ⟨totalOrder_of_eq fun _ _ => Text.eq_of_naturalCompare,
    totalOrder_of_eq fun _ _ => eq_of_compareAddresses, Text.naturalCompare_eq_walk,
    fun _ _ => compareAddresses_of_name, fun _ _ _ _ => compareAddresses_of_ipv4⟩

/-- The highest address stands before the empty text, and addresses are no texts with numbers. -/
theorem addresses_before_texts :
    compareAddresses "255.255.255.255" "" = .lt ∧ compareAddresses "9.0.0.1" "10.0.0.1" = .lt := by
  obtain ⟨-, -, -, hnames, hnumbers⟩ := text_orders_are_total
  refine ⟨hnames _ _ (by decide +kernel) (by decide +kernel), ?_⟩
  rw [hnumbers "9.0.0.1" "10.0.0.1" ⟨0x09000001, by decide⟩ ⟨0x0a000001, by decide⟩
    (by decide +kernel) (by decide +kernel)]
  decide

end MinerFleet
