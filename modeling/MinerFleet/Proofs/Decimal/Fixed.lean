/-
Texts with a fixed number of places are read as the numbers that they show.

* `Numeral.value` — a number that was read as a rational number;
* `figure` — digits with a point among them, if there are any behind it;
* `Numeral.ofChars?_figure` — how such digits are read;
* `Quotient.fixed_eq_figure` — an amount with a fixed number of places is written in such digits.

Zeros in front of a number fill up the places that it does not need, and zeros at the end can be
left out together with the point (`dropZeros_figure`). Neither changes the number that is read.
-/
import Mathlib.Data.List.DropRight
import MinerFleet.Decimal.Numeral
import MinerFleet.Proofs.Decimal.Rounding
import MinerFleet.Proofs.Text.Rows

namespace MinerFleet.Decimal

open Text

/-! ### Rows of digits -/

theorem digitsValue_eq (cs : List Char) : Numeral.digitsValue cs = rowValue cs := by
  rw [Numeral.digitsValue, rowValue, Nat.ofDigitChars_eq_foldl]
  congr 1
  funext n c
  rw [Nat.mul_comm]

theorem rowValue_append (as bs : List Char) :
    rowValue (as ++ bs) = Nat.ofDigitChars 10 bs (rowValue as) :=
  Nat.ofDigitChars_append 0

/-- Zeros in front do not count. -/
theorem rowValue_zeros_append (k : Nat) (cs : List Char) :
    rowValue (List.replicate k '0' ++ cs) = rowValue cs := by
  induction k with
  | zero => rfl
  | succ k ih =>
    rw [List.replicate_succ, List.cons_append, rowValue, Nat.ofDigitChars_cons]
    exact ih

/-- Each zero behind multiplies by ten. -/
theorem rowValue_append_zeros (cs : List Char) (k : Nat) :
    rowValue (cs ++ List.replicate k '0') = rowValue cs * 10 ^ k := by
  induction k with
  | zero => rw [List.replicate_zero, List.append_nil, pow_zero, mul_one]
  | succ k ih =>
    rw [List.replicate_succ', ← List.append_assoc, rowValue_append, ih, Nat.ofDigitChars_cons]
    show 10 * (rowValue cs * 10 ^ k) + 0 = _
    ring

theorem isRow_toDigits (n : Nat) : IsRow (Nat.toDigits 10 n) := fun _ hc =>
  Nat.isDigit_of_mem_toDigits (by decide) (by decide) hc

theorem isRow_zeros (k : Nat) : IsRow (List.replicate k '0') := fun c hc => by
  rw [List.eq_of_mem_replicate hc]
  rfl

theorem ne_of_isDigit {c d : Char} (hc : c.isDigit = true) (hd : d.isDigit = false) : c ≠ d :=
  fun h => Bool.false_ne_true (hd.symm.trans (h ▸ hc))

/-! ### Reading -/

/-- A number as a rational number. -/
def Numeral.value (n : Numeral) : ℚ :=
  (if n.negative then -1 else 1) * n.digits * 10 ^ n.exponent

/-- Digits, and a point in front of those that stand behind it. -/
def figure (whole places : List Char) : List Char :=
  if places = [] then whole else whole ++ '.' :: places

theorem Numeral.sign_of_isDigit {c : Char} (h : c.isDigit = true) (cs : List Char) :
    sign (c :: cs) = (false, c :: cs) := by
  unfold sign
  split
  · rename_i heq
    exact absurd (List.cons.inj heq).1 (ne_of_isDigit h (by decide))
  · rename_i heq
    exact absurd (List.cons.inj heq).1 (ne_of_isDigit h (by decide))
  · rfl

/-- How digits are read. -/
theorem Numeral.ofChars?_figure {whole places : List Char} (hw : IsRow whole) (hne : whole ≠ [])
    (hp : IsRow places) :
    ofChars? (figure whole places) =
      some ⟨false, rowValue (whole ++ places), -(places.length : ℤ)⟩ := by
  have hsign (rest : List Char) : sign (whole ++ rest) = (false, whole ++ rest) := by
    obtain ⟨c, cs, rfl⟩ := List.exists_cons_of_ne_nil hne
    exact sign_of_isDigit (hw c List.mem_cons_self) (cs ++ rest)
  have htake : places.takeWhile Char.isDigit = places := List.takeWhile_eq_self_iff.mpr hp
  have hdrop : places.dropWhile Char.isDigit = [] := List.dropWhile_eq_nil_iff.mpr hp
  rw [figure]
  split
  · rename_i hnil
    subst hnil
    have hsign := hsign []
    rw [List.append_nil] at hsign
    simp only [ofChars?, hsign, List.takeWhile_eq_self_iff.mpr hw,
      List.dropWhile_eq_nil_iff.mpr hw, hne, false_and, if_false, exponent?, Option.map_some,
      digitsValue_eq, List.length_nil, Nat.cast_zero, sub_zero, neg_zero]
  · have hpoint : ¬Char.isDigit '.' = true := by decide
    simp only [ofChars?, hsign, List.takeWhile_append_of_pos hw, List.dropWhile_append_of_pos hw,
      List.takeWhile_cons_of_neg hpoint, List.dropWhile_cons_of_neg hpoint, List.append_nil, htake,
      hdrop, hne, false_and, if_false, exponent?, Option.map_some, digitsValue_eq, zero_sub]

/-! ### Writing -/

/-- An amount is written in as many places as it is asked for. -/
theorem Quotient.fixed_eq_figure (q : Quotient) (n : Nat) :
    ∃ whole places, (q.fixed n).toList = figure whole places ∧ IsRow whole ∧ whole ≠ [] ∧
      IsRow places ∧ places.length = n ∧ rowValue (whole ++ places) = (q.shift n).round := by
  set units := (q.shift n).round with hunits
  have hdigits : (toString units).toList = Nat.toDigits 10 units := by
    rw [Nat.toString_eq_repr, Nat.toList_repr]
  have hvalue : rowValue (Nat.toDigits 10 units) = units :=
    Nat.ofDigitChars_toDigits (by decide) (by decide)
  rw [fixed, ← hunits]
  split
  · rename_i hn
    exact ⟨Nat.toDigits 10 units, [], hdigits, isRow_toDigits units, Nat.toDigits_ne_nil, nofun,
      hn.symm, by rw [List.append_nil, hvalue]⟩
  · rename_i hn
    rw [hdigits]
    set digits := List.replicate (n + 1 - (Nat.toDigits 10 units).length) '0' ++
      Nat.toDigits 10 units with hfilled
    have hrow : IsRow digits := List.forall_mem_append.mpr ⟨isRow_zeros _, isRow_toDigits units⟩
    have hlength : n + 1 ≤ digits.length := by
      rw [hfilled, List.length_append, List.length_replicate]
      omega
    have hplaces : (digits.drop (digits.length - n)).length = n := by
      rw [List.length_drop]
      omega
    refine ⟨digits.take (digits.length - n), digits.drop (digits.length - n), ?_,
      fun c hc => hrow c (List.mem_of_mem_take hc), ?_,
      fun c hc => hrow c (List.mem_of_mem_drop hc), hplaces, ?_⟩
    · rw [figure, if_neg (List.ne_nil_of_length_pos (by omega))]
      simp only [String.toList_append, String.toList_ofList, List.append_assoc]
      rfl
    · refine List.ne_nil_of_length_pos ?_
      rw [List.length_take]
      omega
    · rw [List.take_append_drop, hfilled, rowValue_zeros_append, hvalue]

/-- Digits without the zeros at the end, and without the point if nothing is left behind it. -/
theorem dropZeros_figure {whole places : List Char} (hw : IsRow whole) (hp : IsRow places)
    (hne : places ≠ []) :
    ∃ front k, places = front ++ List.replicate k '0' ∧
      ((figure whole places).rdropWhile (· = '0')).rdropWhile (· = '.') = figure whole front := by
  have hpoint (cs : List Char) (h : IsRow cs) : cs.rdropWhile (· = '.') = cs := by
    rw [List.rdropWhile_eq_self_iff]
    intro hne
    simpa using ne_of_isDigit (h _ (List.getLast_mem hne)) (by decide : '.'.isDigit = false)
  rw [figure, if_neg hne]
  clear hne
  induction places using List.reverseRecOn with
  | nil =>
    refine ⟨[], 0, rfl, ?_⟩
    rw [List.rdropWhile_concat_neg _ _ _ (by decide), List.rdropWhile_concat_pos _ _ _ (by decide),
      hpoint whole hw, figure, if_pos rfl]
  | append_singleton places c ih =>
    obtain ⟨hp, hdigit⟩ := List.forall_mem_append.mp hp
    have hlist : whole ++ '.' :: (places ++ [c]) = whole ++ '.' :: places ++ [c] := by
      rw [List.append_assoc, List.cons_append]
    rw [hlist]
    by_cases hzero : c = '0'
    · obtain ⟨front, k, rfl, hfront⟩ := ih hp
      refine ⟨front, k + 1, ?_, ?_⟩
      · rw [hzero, List.replicate_succ', List.append_assoc]
      · rw [List.rdropWhile_concat_pos _ _ _ (by simpa using hzero), hfront]
    · have hc : c ≠ '.' := ne_of_isDigit (hdigit c (List.mem_singleton_self c)) (by decide)
      refine ⟨places ++ [c], 0, by simp, ?_⟩
      rw [List.rdropWhile_concat_neg _ _ _ (by simpa using hzero),
        List.rdropWhile_concat_neg _ _ _ (by simpa using hc), figure, if_neg (by simp), hlist]

end MinerFleet.Decimal
