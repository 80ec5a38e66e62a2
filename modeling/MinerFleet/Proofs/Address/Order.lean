/-
The order of addresses is strict.

* `Ipv4.text_of_ofText?` — only `Ipv4.text` spells an address: what is read as an address is
  written as it was read;
* `eq_of_compareAddresses` — so two addresses that may stand either way are the same.

An octet has one spelling, since no zero may stand in front of others; that is looked at digit by
digit (`toString_of_octet?`). And a text is made up of the parts at which it is cut
(`Text.intercalate_splitChars`).
-/
import MinerFleet.Address.HostName
import MinerFleet.Proofs.Address.Literal

namespace MinerFleet

/-! ### Parts -/

/-- The parts of a text with the character between them are the text. -/
theorem Text.intercalate_splitChars (sep : Char) (cs : List Char) :
    [sep].intercalate (splitChars sep cs) = cs := by
  induction cs with
  | nil => rfl
  | cons c cs ih =>
    rw [splitChars]
    cases hs : splitChars sep cs with
    | nil => exact absurd hs (splitChars_ne_nil sep cs)
    | cons part parts =>
      rw [hs] at ih
      by_cases hc : c = sep
      · simp only [if_pos hc]
        rw [List.intercalate_cons_cons, ih, hc]
        rfl
      · simp only [if_neg hc]
        cases parts with
        | nil =>
          rw [List.intercalate_singleton] at ih ⊢
          rw [ih]
        | cons p ps =>
          rw [List.intercalate_cons_cons] at ih ⊢
          rw [← ih]
          rfl

/-! ### Octets -/

namespace Ipv4

/-- A digit as it is written. -/
def digitChar (n : Fin 10) : Char :=
  Char.ofNat ('0'.toNat + n)

theorem exists_digitChar {c : Char} (h : c.isDigit = true) : ∃ n, c = digitChar n := by
  have hrange : 48 ≤ c.toNat ∧ c.toNat ≤ 57 := by
    simpa [Char.isDigit, UInt32.le_iff_toNat_le] using h
  have hzero : '0'.toNat = 48 := rfl
  have hvalue : '0'.toNat + (c.toNat - 48) = c.toNat := by omega
  refine ⟨⟨c.toNat - 48, by omega⟩, ?_⟩
  rw [digitChar, hvalue, Char.ofNat_toNat]

theorem toNat_digitChar (n : Fin 10) : (digitChar n).toNat - '0'.toNat = n := by
  revert n
  decide

/-- How an octet can be written: with up to three digits, of which the first is zero only if it is
the last. -/
inductive Written : List Char → Nat → Prop
  | one (a : Fin 10) : Written [digitChar a] a
  | two (a b : Fin 10) (h : a ≠ 0) : Written [digitChar a, digitChar b] (a * 10 + b)
  | three (a b c : Fin 10) (h : a ≠ 0) :
    Written [digitChar a, digitChar b, digitChar c] ((a * 10 + b) * 10 + c)

theorem Written.unique {cs cs' : List Char} {n : Nat} (h : Written cs n) (h' : Written cs' n) :
    cs = cs' := by
  generalize hn : n = m at h'
  cases h <;> cases h'
  case one.one a b => rw [Fin.ext hn]
  case two.two a b _ a' b' _ =>
    obtain rfl : a = a' := Fin.ext (by omega)
    obtain rfl : b = b' := Fin.ext (by omega)
    rfl
  case three.three a b c _ a' b' c' _ =>
    obtain rfl : a = a' := Fin.ext (by omega)
    obtain rfl : b = b' := Fin.ext (by omega)
    obtain rfl : c = c' := Fin.ext (by omega)
    rfl
  all_goals
    -- Numbers with more digits are greater, unless the first is zero.
    omega

theorem written_of_octet? {cs : List Char} {n : Fin 256} (h : octet? cs = some n) :
    Written cs n := by
  rw [octet?] at h
  split at h
  · cases h
  · rename_i hok
    simp only [not_or, not_and, Bool.not_eq_true', Bool.not_eq_false, List.all_eq_true,
      Nat.not_lt, not_not] at hok
    obtain ⟨hne, hlen, hdigits, hzero⟩ := hok
    obtain ⟨hlt, hn⟩ := Option.dite_none_right_eq_some.mp h
    rw [← Option.some.inj hn]
    match cs with
    | [] => exact absurd rfl hne
    | [x] =>
      obtain ⟨a, rfl⟩ := exists_digitChar (hdigits x (by simp))
      simp only [List.foldl_cons, List.foldl_nil, toNat_digitChar, Nat.zero_mul, Nat.zero_add]
      exact .one a
    | [x, y] =>
      obtain ⟨a, rfl⟩ := exists_digitChar (hdigits x (by simp))
      obtain ⟨b, rfl⟩ := exists_digitChar (hdigits y (by simp))
      simp only [List.foldl_cons, List.foldl_nil, toNat_digitChar, Nat.zero_mul, Nat.zero_add]
      exact .two a b fun ha => absurd (hzero (by rw [ha]; rfl)) (by simp)
    | [x, y, z] =>
      obtain ⟨a, rfl⟩ := exists_digitChar (hdigits x (by simp))
      obtain ⟨b, rfl⟩ := exists_digitChar (hdigits y (by simp))
      obtain ⟨c, rfl⟩ := exists_digitChar (hdigits z (by simp))
      simp only [List.foldl_cons, List.foldl_nil, toNat_digitChar, Nat.zero_mul, Nat.zero_add]
      exact .three a b c fun ha => absurd (hzero (by rw [ha]; rfl)) (by simp)
    | _ :: _ :: _ :: _ :: _ =>
      simp only [List.length_cons] at hlen
      omega

/-- An octet has one spelling. -/
theorem toString_of_octet? {cs : List Char} {n : Fin 256} (h : octet? cs = some n) :
    (toString n.val).toList = cs :=
  (written_of_octet? (octet?_toString n)).unique (written_of_octet? h)

/-! ### Addresses -/

theorem octets_ofOctets (a b c d : Fin 256) :
    (ofOctets a b c d).octets = [a.val, b.val, c.val, d.val] := by
  simp only [octets, ofOctets, List.cons.injEq, and_true]
  omega

/-- An address is written as its octets with dots between them. -/
theorem toList_text (a : Ipv4) :
    a.text.toList = ['.'].intercalate (a.octets.map fun n => (toString n).toList) := by
  have hdot : ".".toList = ['.'] := rfl
  simp only [text, octets, List.map_cons, List.map_nil, Text.joinWith, String.toList_append, hdot,
    List.intercalate_cons_cons, List.intercalate_singleton, List.append_assoc]

/-- Only `Ipv4.text` spells an address. -/
theorem text_of_ofText? {s : String} {a : Ipv4} (h : ofText? s = some a) : a.text = s := by
  rw [ofText?, ofChars?] at h
  split at h
  · rename_i p q r t hparts
    obtain rfl := Option.some.inj h
    -- The text is cut into four parts, each the spelling of its octet.
    obtain ⟨ps, qs, rs, ts, hcut, hp, hq, hr, ht⟩ : ∃ ps qs rs ts,
        Text.splitChars '.' s.toList = [ps, qs, rs, ts] ∧ octet? ps = some p ∧
          octet? qs = some q ∧ octet? rs = some r ∧ octet? ts = some t := by
      simpa [List.map_eq_cons_iff] using hparts
    rw [← String.toList_inj, ← Text.intercalate_splitChars '.' s.toList, hcut,
      ← toString_of_octet? hp, ← toString_of_octet? hq, ← toString_of_octet? hr,
      ← toString_of_octet? ht, toList_text, octets_ofOctets]
    rfl
  · cases h

end Ipv4

/-- Texts that fold alike are told apart by their characters. -/
theorem Text.eq_of_naturalCompare {a b : String} (h : naturalCompare a b = .eq) : a = b := by
  rw [naturalCompare, Ordering.then_eq_eq] at h
  exact Std.LawfulEqCmp.eq_of_compare h.2

/-- Two addresses that may stand either way are the same. -/
theorem eq_of_compareAddresses {a b : String} (h : compareAddresses a b = .eq) : a = b := by
  rw [compareAddresses] at h
  cases ha : Ipv4.ofText? a with
  | none =>
    cases hb : Ipv4.ofText? b with
    | none =>
      simp only [ha, hb] at h
      exact Text.eq_of_naturalCompare h
    | some y =>
      simp only [ha, hb] at h
      cases h
  | some x =>
    cases hb : Ipv4.ofText? b with
    | none =>
      simp only [ha, hb] at h
      cases h
    | some y =>
      simp only [ha, hb] at h
      have hvalue : x.value = y.value := Std.LawfulEqCmp.eq_of_compare h
      obtain rfl : x = y := by
        cases x
        cases y
        cases hvalue
        rfl
      rw [← Ipv4.text_of_ofText? ha, Ipv4.text_of_ofText? hb]

end MinerFleet
