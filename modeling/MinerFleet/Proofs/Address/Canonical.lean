/-
Addresses have one spelling.

* `Ipv4.DottedQuad` — how an address is spelled: its four octets with dots between them, each
  without zeros in front;
* `parseIp_eq_ok` — reading an address is the inverse of writing it;
* `addresses_have_one_spelling` — so the texts that are read as addresses are as many as there are
  addresses, and each of them stands for an address of its own.

The texts that are read are those that are written (`Ipv4.ofText?_text`, `Ipv4.text_of_ofText?`).
The spelling is looked at octet by octet: each has one (`Ipv4.Written.unique`), and it is the one
that is written.
-/
import Mathlib.SetTheory.Cardinal.Finite
import MinerFleet.Proofs.Address.Order

namespace MinerFleet

namespace Ipv4

/-! ### Spelling -/

/-- A text spells an address: it has the four octets with dots between them, and each octet has one
to three digits, of which the first is zero only if it is the last. -/
def DottedQuad (s : String) (a : Ipv4) : Prop :=
  ∃ parts : List (List Char), s.toList = ['.'].intercalate parts ∧
    List.Forall₂ Written parts a.octets

theorem lt_of_mem_octets {a : Ipv4} {n : Nat} (h : n ∈ a.octets) : n < 256 := by
  have := a.value_lt
  simp only [octets, List.mem_cons, List.not_mem_nil, or_false] at h
  omega

/-- An octet is spelled as it is written. -/
theorem written_iff {cs : List Char} {n : Nat} (h : n < 256) :
    Written cs n ↔ cs = (toString n).toList := by
  have hself : Written (toString n).toList n := written_of_octet? (octet?_toString ⟨n, h⟩)
  exact ⟨fun hw => hw.unique hself, fun he => he ▸ hself⟩

theorem forall₂_written_iff {ns : List Nat} (h : ∀ n ∈ ns, n < 256) {parts : List (List Char)} :
    List.Forall₂ Written parts ns ↔ parts = ns.map fun n => (toString n).toList := by
  induction ns generalizing parts with
  | nil => exact List.forall₂_nil_right_iff
  | cons n ns ih =>
    rw [List.forall_mem_cons] at h
    simp only [List.forall₂_cons_right_iff, List.map_cons, written_iff h.1, ih h.2]
    constructor
    · rintro ⟨cs, rest, rfl, rfl, rfl⟩
      rfl
    · rintro rfl
      exact ⟨_, _, rfl, rfl, rfl⟩

/-- An address is spelled as it is written. -/
theorem dottedQuad_iff {s : String} {a : Ipv4} : DottedQuad s a ↔ s = a.text := by
  have hoctets : ∀ n ∈ a.octets, n < 256 := fun _ => lt_of_mem_octets
  rw [← String.toList_inj, toList_text]
  constructor
  · rintro ⟨parts, hs, hwritten⟩
    rw [hs, (forall₂_written_iff hoctets).mp hwritten]
  · exact fun hs => ⟨_, hs, (forall₂_written_iff hoctets).mpr rfl⟩

/-! ### Reading -/

theorem ofText?_eq_some {s : String} {a : Ipv4} : ofText? s = some a ↔ s = a.text :=
  ⟨fun h => (text_of_ofText? h).symm, fun h => h ▸ ofText?_text a⟩

theorem ofText?_eq_none {s : String} : ofText? s = none ↔ ∀ a : Ipv4, s ≠ a.text := by
  simp only [Option.eq_none_iff_forall_ne_some, ne_eq, ofText?_eq_some]

end Ipv4

open Ipv4

theorem parseIp_eq_ok {s : String} {a : Ipv4} : parseIp s = .ok a ↔ s = a.text := by
  rw [← ofText?_eq_some, parseIp]
  cases ofText? s <;> simp

theorem parseIp_eq_error {s : String} {fault : Fault} :
    parseIp s = .error fault ↔ fault = .invalidAddress s ∧ ∀ a : Ipv4, s ≠ a.text := by
  rw [← ofText?_eq_none, parseIp]
  cases ofText? s <;> simp [eq_comm]

theorem isIpLiteral_iff {s : String} : isIpLiteral s = true ↔ ∃ a : Ipv4, s = a.text := by
  simp only [isIpLiteral, Option.isSome_iff_exists, ofText?_eq_some]

/-- The texts that are read as addresses are as many as there are addresses. -/
theorem card_isIpLiteral : Nat.card {s // isIpLiteral s = true} = 2 ^ 32 := by
  have hnumbers : Nat.card Ipv4 = 2 ^ 32 :=
    (Nat.card_congr ⟨fun a => ⟨a.value, a.value_lt⟩, fun n => ⟨n.val, n.isLt⟩,
      fun _ => rfl, fun _ => rfl⟩).trans (Nat.card_fin (2 ^ 32))
  rw [← hnumbers]
  refine (Nat.card_congr (Equiv.ofBijective (fun a : Ipv4 => ⟨a.text, isIpLiteral_text a⟩) ?_)).symm
  constructor
  · exact fun a b h => text_injective (congrArg Subtype.val h)
  · rintro ⟨s, hs⟩
    obtain ⟨a, rfl⟩ := isIpLiteral_iff.mp hs
    exact ⟨a, rfl⟩

/-- Each address has one spelling, and no other text is taken for an address.

* Of all texts, one is read as an address: the one that it is written as. It has the four octets of
  the address with dots between them, and no zeros in front of any. Any other text is a fault, which
  names it.
* So the texts that are taken for addresses are exactly those that are written for one. There are
  two to the 32, and no two of them stand for the same host. -/
theorem addresses_have_one_spelling :
    (∀ s a, parseIp s = .ok a ↔ s = a.text) ∧
    (∀ s a, DottedQuad s a ↔ s = a.text) ∧
    (∀ s fault, parseIp s = .error fault ↔
      fault = .invalidAddress s ∧ ∀ a : Ipv4, s ≠ a.text) ∧
    (∀ s, isIpLiteral s = true ↔ ∃ a, DottedQuad s a) ∧
    Nat.card {s // isIpLiteral s = true} = 2 ^ 32 ∧
    Set.InjOn ofText? {s | isIpLiteral s = true} := by
  refine ⟨fun _ _ => parseIp_eq_ok, fun _ _ => dottedQuad_iff, fun _ _ => parseIp_eq_error,
    fun s => ?_, card_isIpLiteral, fun s hs t ht hst => ?_⟩
  · simp only [isIpLiteral_iff, dottedQuad_iff]
  · obtain ⟨a, rfl⟩ := isIpLiteral_iff.mp hs
    obtain ⟨b, rfl⟩ := isIpLiteral_iff.mp ht
    rw [ofText?_text, ofText?_text] at hst
    rw [Option.some.inj hst]

/-- A zero in front, a sign, a blank and an octet that is missing or too large. -/
example : ["10.1.1.050", "+10.1.1.50", "10.1.1.50 ", "10.1.50", "10.1.1.256"].filter isIpLiteral =
    [] := by
  decide +kernel

end MinerFleet
