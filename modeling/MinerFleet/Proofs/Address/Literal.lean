/-
Names of miners.

* `Text.trim_trim` — a name has no blanks around it to lose a second time;
* `isPeer_ne_empty` — no miner has the empty name;
* `Ipv4.ofText?_text` — an address is read as it is written;
* `isIpLiteral_of_mem_hosts` — so the hosts of a network all go by their addresses.
-/
import Mathlib.Data.List.DropRight
import MinerFleet.Address.HostName
import MinerFleet.Address.Subnet
import MinerFleet.Proofs.Json.Fields
import MinerFleet.Text.Basic

namespace MinerFleet

/-! ### Blanks -/

namespace Text

theorem dropWhile_eq_self_of_prefix {p : Char → Bool} {as bs : List Char} (h : as <+: bs)
    (hb : bs.dropWhile p = bs) : as.dropWhile p = as := by
  rw [List.dropWhile_eq_self_iff] at hb ⊢
  intro ha
  obtain ⟨rest, rfl⟩ := h
  have hb' := hb (by rw [List.length_append]; omega)
  rwa [List.getElem_append_left ha] at hb'

theorem trimChars_trimChars (cs : List Char) : trimChars (trimChars cs) = trimChars cs := by
  have hfront : (trimChars cs).dropWhile isBlank = trimChars cs := by
    refine dropWhile_eq_self_of_prefix ?_ (List.dropWhile_idempotent isBlank cs)
    rw [trimChars, ← List.reverse_suffix, List.reverse_reverse]
    exact List.dropWhile_suffix isBlank
  rw [trimChars, hfront, trimChars, List.reverse_reverse, List.dropWhile_idempotent]

theorem trim_trim (s : String) : trim (trim s) = trim s := by
  rw [trim, trim, String.toList_ofList, trimChars_trimChars]

/-! ### Parts -/

theorem splitChars_ne_nil (sep : Char) (cs : List Char) : splitChars sep cs ≠ [] := by
  cases cs with
  | nil => exact List.cons_ne_nil _ _
  | cons c cs =>
    rw [splitChars]
    split
    · exact List.cons_ne_nil _ _
    · split <;> exact List.cons_ne_nil _ _

/-- A text is cut behind a part in which the character does not stand. -/
theorem splitChars_append_cons {sep : Char} {part : List Char} (h : sep ∉ part)
    (rest : List Char) : splitChars sep (part ++ sep :: rest) = part :: splitChars sep rest := by
  induction part with
  | nil =>
    rw [List.nil_append, splitChars]
    cases hs : splitChars sep rest with
    | nil => exact absurd hs (splitChars_ne_nil sep rest)
    | cons first more => exact if_pos rfl
  | cons c part ih =>
    rw [List.mem_cons, not_or] at h
    rw [List.cons_append, splitChars, ih h.2]
    exact if_neg fun he => h.1 he.symm

theorem splitChars_of_not_mem {sep : Char} {part : List Char} (h : sep ∉ part) :
    splitChars sep part = [part] := by
  induction part with
  | nil => rfl
  | cons c part ih =>
    rw [List.mem_cons, not_or] at h
    rw [splitChars, ih h.2]
    exact if_neg fun he => h.1 he.symm

end Text

/-! ### Addresses -/

theorem isPeer_ne_empty {s : String} (h : isPeer s = true) : s ≠ "" := by
  rintro rfl
  exact absurd h (by decide)

namespace Ipv4

theorem octet?_toString (n : Fin 256) : octet? (toString n.val).toList = some n := by
  revert n
  decide +kernel

theorem dot_not_mem_toString (n : Fin 256) : '.' ∉ (toString n.val).toList := by
  revert n
  decide +kernel

/-- Four octets with dots between them are read one by one. -/
theorem ofText?_join (a b c d : Fin 256) :
    ofText? (Text.joinWith "." ([a, b, c, d].map fun n => toString n.val)) =
      some (ofOctets a b c d) := by
  -- No octet has a dot in it, so that the text is cut exactly between the octets.
  have hparts : Text.splitChars '.'
      (Text.joinWith "." ([a, b, c, d].map fun n => toString n.val)).toList =
        [a, b, c, d].map fun n => (toString n.val).toList := by
    simp only [List.map_cons, List.map_nil, Text.joinWith, String.toList_append]
    have hdot : ".".toList = ['.'] := rfl
    rw [hdot]
    simp only [List.append_assoc, List.singleton_append]
    rw [Text.splitChars_append_cons (dot_not_mem_toString a),
      Text.splitChars_append_cons (dot_not_mem_toString b),
      Text.splitChars_append_cons (dot_not_mem_toString c),
      Text.splitChars_of_not_mem (dot_not_mem_toString d)]
  rw [ofText?, ofChars?, hparts]
  simp only [List.map_cons, List.map_nil, octet?_toString]

/-- An address is read as it is written. -/
theorem ofText?_text (a : Ipv4) : ofText? a.text = some a := by
  obtain ⟨n, hlt⟩ := a
  refine (ofText?_join ⟨n / 0x1000000, by omega⟩ ⟨n / 0x10000 % 256, by omega⟩
    ⟨n / 0x100 % 256, by omega⟩ ⟨n % 256, by omega⟩).trans ?_
  simp only [ofOctets, Option.some.injEq, mk.injEq]
  omega

theorem text_injective : Function.Injective text := by
  intro a b h
  have hread := congrArg ofText? h
  rwa [ofText?_text, ofText?_text, Option.some.injEq] at hread

theorem isIpLiteral_text (a : Ipv4) : isIpLiteral a.text = true := by
  rw [isIpLiteral, ofText?_text, Option.isSome_some]

end Ipv4

/-- The hosts of a network go by their addresses. -/
theorem isIpLiteral_of_mem_hosts {ip netmask : String} {addresses : List String}
    (h : hosts ip netmask = .ok addresses) {a : String} (ha : a ∈ addresses) :
    isIpLiteral a = true := by
  rw [hosts, bind_eq_ok] at h
  obtain ⟨subnet, -, h⟩ := h
  split at h
  · cases h
  · obtain rfl := Except.ok.inj h
    obtain ⟨i, -, rfl⟩ := List.mem_map.mp ha
    exact Ipv4.isIpLiteral_text _

end MinerFleet
