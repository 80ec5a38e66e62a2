/-
Rows of digits are ordered by the numbers that they denote.

* `IsRow`, `NoDigit` — a row of digits, and a place at which a row can begin or end;
* `rowValue` — the number that a row of digits denotes;
* `significant` — a row without the zeros at its front;
* `compareRows` — rows by their lengths, and rows of one length by their characters, zeros at the
  front apart.

No number has to be computed to compare two rows, so that they may have any length. Without zeros
at the front, a longer row denotes a greater number (`rowValue_lt`, `le_rowValue`), and in rows of
one length the first difference decides (`compare_of_length_eq`); so the order is that of the
numbers (`compareRows_eq`).
-/
import Mathlib.Tactic.Ring
import MinerFleet.Text.NaturalOrder

namespace MinerFleet.Text

/-- Characters all of which are digits. -/
def IsRow (cs : List Char) : Prop :=
  ∀ c ∈ cs, c.isDigit = true

instance : DecidablePred IsRow := fun _ =>
  decidable_of_iff _ List.all_eq_true

/-- There is no digit at a place of a text, which may lie outside of the text. -/
def NoDigit (place : Option Char) : Prop :=
  ∀ c ∈ place, c.isDigit = false

instance : DecidablePred NoDigit := fun place =>
  decidable_of_iff (place.all fun c => !c.isDigit) (by rw [NoDigit]; cases place <;> simp)

/-- The number that a row of digits denotes. -/
def rowValue (cs : List Char) : Nat :=
  Nat.ofDigitChars 10 cs 0

/-- A row without the zeros at its front. -/
def significant (cs : List Char) : List Char :=
  cs.dropWhile (· == '0')

/-- Rows by their lengths, and rows of one length by their characters, zeros at the front apart. -/
def compareRows (as bs : List Char) : Ordering :=
  (compare (significant as).length (significant bs).length).then
    (compare (significant as) (significant bs))

/-! ### Characters -/

/-- The digit that a character stands for, counted from zero. -/
def digitOf (c : Char) : Nat :=
  c.toNat - '0'.toNat

theorem toNat_eq_of_isDigit {c : Char} (h : c.isDigit = true) :
    c.toNat = 48 + digitOf c ∧ digitOf c < 10 := by
  obtain ⟨hlow, hhigh⟩ : 48 ≤ c.toNat ∧ c.toNat ≤ 57 := Char.isDigit_iff_toNat.mp h
  show c.toNat = 48 + (c.toNat - 48) ∧ c.toNat - 48 < 10
  omega

theorem compare_toNat (a b : Char) : compare a b = compare a.toNat b.toNat := by
  have hlt : a < b ↔ a.toNat < b.toNat := by
    rw [Char.lt_def, UInt32.lt_iff_toNat_lt]
    rfl
  show compareOfLessAndEq a b = compareOfLessAndEq a.toNat b.toNat
  simp only [compareOfLessAndEq, hlt, Char.toNat_inj]

theorem compare_add_left (k m n : Nat) : compare (k + m) (k + n) = compare m n := by
  simp [Nat.compare_eq_ite_lt]

theorem compare_digits {a b : Char} (ha : a.isDigit = true) (hb : b.isDigit = true) :
    compare a b = compare (digitOf a) (digitOf b) := by
  rw [compare_toNat, (toNat_eq_of_isDigit ha).1, (toNat_eq_of_isDigit hb).1, compare_add_left]

/-! ### Numbers -/

theorem rowValue_cons (c : Char) (cs : List Char) :
    rowValue (c :: cs) = 10 ^ cs.length * digitOf c + rowValue cs := by
  rw [rowValue, Nat.ofDigitChars_cons, Nat.ofDigitChars_eq_ofDigitChars_zero, Nat.mul_zero,
    Nat.zero_add]
  rfl

theorem rowValue_significant (cs : List Char) : rowValue (significant cs) = rowValue cs := by
  induction cs with
  | nil => rfl
  | cons c cs ih =>
    by_cases hc : c = '0'
    · subst hc
      rw [rowValue_cons, ← ih]
      simp [significant, digitOf]
    · rw [significant, List.dropWhile_cons_of_neg (by simpa using hc)]

theorem rowValue_lt {cs : List Char} (h : IsRow cs) : rowValue cs < 10 ^ cs.length := by
  induction cs with
  | nil => decide
  | cons c cs ih =>
    have hc := (toNat_eq_of_isDigit (h c List.mem_cons_self)).2
    have hcs := ih fun d hd => h d (List.mem_cons_of_mem c hd)
    calc rowValue (c :: cs)
        = 10 ^ cs.length * digitOf c + rowValue cs := rowValue_cons c cs
      _ < 10 ^ cs.length * digitOf c + 10 ^ cs.length := by omega
      _ = 10 ^ cs.length * (digitOf c + 1) := by ring
      _ ≤ 10 ^ cs.length * 10 := Nat.mul_le_mul_left _ hc
      _ = 10 ^ (c :: cs).length := by rw [List.length_cons, Nat.pow_succ]

theorem isRow_significant {cs : List Char} (h : IsRow cs) : IsRow (significant cs) :=
  fun c hc => h c ((List.dropWhile_sublist _).subset hc)

/-- Without zeros at the front, a row denotes a number that needs all its places. -/
theorem le_rowValue {cs : List Char} (h : IsRow cs) {n : Nat} (hn : n < (significant cs).length) :
    10 ^ n ≤ rowValue cs := by
  have hrow := isRow_significant h
  have hfront := List.head?_dropWhile_not (· == '0') cs
  rw [← rowValue_significant]
  rw [← significant] at hfront
  cases hs : significant cs with
  | nil =>
    rw [hs] at hn
    cases hn
  | cons c ds =>
    rw [hs] at hrow hfront hn
    obtain ⟨hval, -⟩ := toNat_eq_of_isDigit (hrow c List.mem_cons_self)
    have hpos : 0 < digitOf c := by
      by_contra hzero
      have hc : c = '0' := Char.toNat_inj.mp (show c.toNat = 48 by omega)
      simp [hc] at hfront
    calc 10 ^ n
        ≤ 10 ^ ds.length := Nat.pow_le_pow_right (by decide) (by simpa using Nat.le_of_lt_succ hn)
      _ ≤ 10 ^ ds.length * digitOf c := Nat.le_mul_of_pos_right _ hpos
      _ ≤ rowValue (c :: ds) := by
        rw [rowValue_cons]
        exact Nat.le_add_right _ _

/-! ### Comparing -/

/-- Numbers are ordered by their leading digits, and with the same ones by the rest. -/
theorem compare_mul_add {k m n r s : Nat} (hr : r < k) (hs : s < k) :
    compare (k * m + r) (k * n + s) = (compare m n).then (compare r s) := by
  rcases Nat.lt_trichotomy m n with h | rfl | h
  · have hmul : k * m + k ≤ k * n := Nat.mul_le_mul_left k h
    rw [Nat.compare_eq_lt.mpr h, Nat.compare_eq_lt.mpr (by omega)]
    rfl
  · rw [compare_add_left, Std.compare_self]
    rfl
  · have hmul : k * n + k ≤ k * m := Nat.mul_le_mul_left k h
    rw [Nat.compare_eq_gt.mpr h, Nat.compare_eq_gt.mpr (by omega)]
    rfl

section

variable {as bs : List Char} (ha : IsRow as) (hb : IsRow bs)
include ha hb

theorem rowValue_lt_of_length_lt (h : (significant as).length < (significant bs).length) :
    rowValue as < rowValue bs := by
  have hlt := rowValue_lt (isRow_significant ha)
  rw [rowValue_significant] at hlt
  exact Nat.lt_of_lt_of_le hlt (le_rowValue hb h)

/-- In rows of one length, the first difference decides. -/
theorem compare_of_length_eq (h : as.length = bs.length) :
    compare as bs = compare (rowValue as) (rowValue bs) := by
  induction as generalizing bs with
  | nil =>
    obtain rfl := List.length_eq_zero_iff.mp h.symm
    rfl
  | cons a as ih =>
    cases bs with
    | nil => cases h
    | cons b bs =>
      have has : IsRow as := fun c hc => ha c (List.mem_cons_of_mem a hc)
      have hbs : IsRow bs := fun c hc => hb c (List.mem_cons_of_mem b hc)
      have hlen : as.length = bs.length := Nat.succ.inj h
      have hlta := rowValue_lt has
      rw [hlen] at hlta
      rw [List.compare_cons_cons, ih has hbs hlen,
        compare_digits (ha a List.mem_cons_self) (hb b List.mem_cons_self), rowValue_cons,
        rowValue_cons, hlen, compare_mul_add hlta (rowValue_lt hbs)]

/-- Rows are ordered by the numbers that they denote, of whatever length they are. -/
theorem compareRows_eq : compareRows as bs = compare (rowValue as) (rowValue bs) := by
  rw [compareRows]
  rcases Nat.lt_trichotomy (significant as).length (significant bs).length with h | h | h
  · rw [Nat.compare_eq_lt.mpr h, Nat.compare_eq_lt.mpr (rowValue_lt_of_length_lt ha hb h)]
    rfl
  · rw [h, Std.compare_self, compare_of_length_eq (isRow_significant ha) (isRow_significant hb) h,
      rowValue_significant, rowValue_significant]
    rfl
  · rw [Nat.compare_eq_gt.mpr h, Nat.compare_eq_gt.mpr (rowValue_lt_of_length_lt hb ha h)]
    rfl

end

end MinerFleet.Text
