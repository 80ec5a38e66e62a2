/-
Amounts are read as they are shown.

* `Scale.letter_cases` — a unit is read from its letter;
* `read?_fixed` — an amount with a fixed number of places and a unit behind it;
* `read?_formatSmall` — an amount below one, with six places but for zeros at the end.

Digits and points are neither blanks nor letters, so that nothing of a number gets lost and none of
it is taken for a unit (`read?_append_letter`).
-/
import MinerFleet.Magnitude.Basic
import MinerFleet.Proofs.Decimal.Fixed

namespace MinerFleet

open Decimal Text

/-! ### Reading -/

namespace Scale

/-- A unit is shown by its letter, from which it is read again, or not at all. -/
theorem letter_cases (scale : Scale) :
    (scale.letter.toList = [] ∧ scale = .one) ∨
      ∃ c, scale.letter.toList = [c] ∧ c.isAlpha = true ∧ isBlank c = false ∧
        ofLetter? c = some scale := by
  cases scale with
  | one => exact .inl ⟨rfl, rfl⟩
  | kilo => exact .inr ⟨'K', by decide +kernel⟩
  | mega => exact .inr ⟨'M', by decide +kernel⟩
  | giga => exact .inr ⟨'G', by decide +kernel⟩
  | tera => exact .inr ⟨'T', by decide +kernel⟩
  | peta => exact .inr ⟨'P', by decide +kernel⟩
  | exa => exact .inr ⟨'E', by decide +kernel⟩

end Scale

namespace Magnitude

/-- Digits and points are no blanks and no letters. -/
theorem plain_of_digit_or_point {c : Char} (h : c.isDigit = true ∨ c = '.') :
    isBlank c = false ∧ c.isAlpha = false := by
  have hascii : ∀ n : Fin 128, ((Char.ofNat n).isDigit = true ∨ Char.ofNat n = '.') →
      isBlank (Char.ofNat n) = false ∧ (Char.ofNat n).isAlpha = false := by
    decide +kernel
  have hlt : c.toNat < 128 := by
    rcases h with h | rfl
    · obtain ⟨hval, hdigit⟩ := toNat_eq_of_isDigit h
      omega
    · decide
  have hc := hascii ⟨c.toNat, hlt⟩
  rw [Char.ofNat_toNat] at hc
  exact hc h

/-- The unit letter behind a number is not taken for a part of it. -/
theorem read?_append_letter {cs : List Char} (hcs : ∀ c ∈ cs, c.isDigit = true ∨ c = '.')
    {n : Numeral} (h : Numeral.ofChars? cs = some n) (scale : Scale) :
    read? (String.ofList cs ++ scale.letter) = some (n, scale) := by
  have hne : cs ≠ [] := by
    rintro rfl
    cases h
  have hfilter : cs.filter (fun c => !isBlank c) = cs := List.filter_eq_self.mpr fun c hc => by
    rw [(plain_of_digit_or_point (hcs c hc)).1, Bool.not_false]
  rw [read?, String.toList_append, String.toList_ofList, List.filter_append, hfilter]
  rcases scale.letter_cases with ⟨hnone, rfl⟩ | ⟨c, hc, halpha, hblank, hscale⟩
  · have hlast := (plain_of_digit_or_point (hcs _ (List.getLast_mem hne))).2
    rw [hnone, List.filter_nil, List.append_nil, List.getLast?_eq_some_getLast hne]
    simp only [hlast, Bool.false_eq_true, if_false, h, Option.map_some]
  · have hletter : [c].filter (fun c => !isBlank c) = [c] := by
      rw [List.filter_cons_of_pos (by rw [hblank]; rfl), List.filter_nil]
    rw [hc, hletter, List.getLast?_concat]
    simp only [halpha, if_true, hscale, List.dropLast_concat, h, Option.map_some]

theorem read?_figure {whole places : List Char} (hw : IsRow whole) (hne : whole ≠ [])
    (hp : IsRow places) (scale : Scale) :
    read? (String.ofList (figure whole places) ++ scale.letter) =
      some (⟨false, rowValue (whole ++ places), -(places.length : ℤ)⟩, scale) := by
  refine read?_append_letter (fun c hc => ?_) (Numeral.ofChars?_figure hw hne hp) scale
  rw [figure] at hc
  split at hc
  · exact .inl (hw c hc)
  · rcases List.mem_append.mp hc with hc | hc
    · exact .inl (hw c hc)
    · rcases List.mem_cons.mp hc with hc | hc
      · exact .inr hc
      · exact .inl (hp c hc)

/-- An amount with some places and its unit is read as it is shown. -/
theorem read?_fixed (q : Quotient) (n : Nat) (scale : Scale) :
    read? (q.fixed n ++ scale.letter) = some (⟨false, (q.shift n).round, -(n : ℤ)⟩, scale) := by
  obtain ⟨whole, places, htext, hw, hne, hp, hlength, hvalue⟩ := q.fixed_eq_figure n
  have hs : q.fixed n = String.ofList (figure whole places) := by
    rw [← htext, String.ofList_toList]
  rw [hs, read?_figure hw hne hp, hlength, hvalue]

/-- Without the zeros at the end an amount below one is read as it is shown in six places. -/
theorem read?_formatSmall (q : Quotient) :
    ∃ digits places k : Nat, read? (formatSmall q) = some (⟨false, digits, -(places : ℤ)⟩, .one) ∧
      places + k = 6 ∧ digits * 10 ^ k = (q.shift 6).round := by
  obtain ⟨whole, places, htext, hw, hne, hp, hlength, hvalue⟩ := q.fixed_eq_figure 6
  have hplaces : places ≠ [] := by
    rintro rfl
    cases hlength
  obtain ⟨front, k, rfl, hfront⟩ := dropZeros_figure hw hp hplaces
  have hs : formatSmall q = String.ofList (figure whole front) ++ Scale.one.letter := by
    rw [formatSmall, htext, ← hfront, Scale.letter, String.append_empty, List.rdropWhile,
      List.rdropWhile, List.reverse_reverse]
  refine ⟨rowValue (whole ++ front), front.length, k, ?_, ?_, ?_⟩
  · rw [hs, read?_figure hw hne (List.forall_mem_append.mp hp).1]
  · rw [← hlength, List.length_append, List.length_replicate]
  · rw [← rowValue_append_zeros, List.append_assoc, hvalue]
    rfl

end Magnitude

end MinerFleet
