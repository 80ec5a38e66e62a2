/-
Natural order by walking through two texts in step.

* `walk` — two texts side by side: where both have a row of digits, the rows are compared, and
  elsewhere one character with one character, until there is a difference;
* `walk_eq` — the walk comes to the order by tokens.

The walk needs to know both texts to tell where it stands. Yet it goes on only while there was no
difference, and then it stands between two tokens of both texts: a digit and another character
always differ (`compare_number_letter`), since no small letter is a digit (`exists_smallChar`). So
each text is taken apart as if it stood alone.
-/
import Mathlib.Data.List.TakeWhile
import MinerFleet.Proofs.Text.Rows

namespace MinerFleet.Text

/-- The order of two texts by a walk through both in step: rows of digits by their values, other
characters by their small letters. -/
def walk : List Char → List Char → Ordering
  | [], [] => .eq
  | [], _ :: _ => .lt
  | _ :: _, [] => .gt
  | a :: as, b :: bs =>
    if a.isDigit && b.isDigit then
      (compareRows (a :: as.takeWhile Char.isDigit) (b :: bs.takeWhile Char.isDigit)).then
        (walk (as.dropWhile Char.isDigit) (bs.dropWhile Char.isDigit))
    else
      (compare (smallChar a) (smallChar b)).then (walk as bs)
termination_by as => as.length
decreasing_by
  · exact Nat.lt_succ_of_le (List.length_dropWhile_le _ _)
  · exact Nat.lt_succ_self _

/-! ### Small letters -/

theorem ascii_cases (n : Fin 128) :
    (Char.ofNat n).toLower.isDigit = (Char.ofNat n).isDigit ∧
      ((Char.ofNat n).isDigit = true → (Char.ofNat n).toLower = Char.ofNat n) := by
  revert n
  decide

theorem smallChar_of_lt {c : Char} (h : c.toNat < 128) : smallChar c = [c.toLower] :=
  if_pos h

theorem smallChar_of_isDigit {c : Char} (h : c.isDigit = true) : smallChar c = [c] := by
  have hlt : c.toNat < 128 := by
    obtain ⟨hval, hdigit⟩ := toNat_eq_of_isDigit h
    omega
  have hsame := (ascii_cases ⟨c.toNat, hlt⟩).2
  rw [Char.ofNat_toNat] at hsame
  rw [smallChar_of_lt hlt, hsame h]

/-- No letter has its small letter among the digits. -/
theorem lowerRuns_above : ∀ run ∈ lowerRuns, (58 : Int) ≤ run.1 + run.2.2.2 := by
  decide +kernel

theorem le_of_shiftBy? {code place : Nat} {run : Nat × Nat × Nat × Int} (hr : run ∈ lowerRuns)
    (h : shiftBy? code run = some place) : 58 ≤ place := by
  have habove := lowerRuns_above run hr
  obtain ⟨first, last, step, shift⟩ := run
  rw [shiftBy?] at h
  obtain ⟨⟨hfirst, -⟩, hplace⟩ := Option.ite_none_right_eq_some.mp h
  have hp := Option.some.inj hplace
  simp only at habove
  omega

theorem isDigit_ofNat {place : Nat} (h : 58 ≤ place) : (Char.ofNat place).isDigit = false := by
  by_cases hvalid : place.isValidChar
  · have hplace : (Char.ofNat place).toNat = place := by
      rw [Char.ofNat, dif_pos hvalid]
      rfl
    rw [← Bool.not_eq_true, Char.isDigit_iff_toNat, hplace]
    show ¬(48 ≤ place ∧ place ≤ 57)
    omega
  · rw [Char.ofNat, dif_neg hvalid]
    rfl

/-- What is no digit has small letters, which do not begin with a digit. -/
theorem exists_smallChar {c : Char} (h : c.isDigit = false) :
    ∃ d ds, smallChar c = d :: ds ∧ d.isDigit = false := by
  by_cases hlt : c.toNat < 128
  · have hsame := (ascii_cases ⟨c.toNat, hlt⟩).1
    rw [Char.ofNat_toNat, h] at hsame
    exact ⟨_, [], smallChar_of_lt hlt, hsame⟩
  · rw [smallChar, if_neg hlt]
    by_cases hdot : c = 'İ'
    · rw [if_pos hdot]
      exact ⟨'i', ['\u0307'], rfl, rfl⟩
    · rw [if_neg hdot]
      refine ⟨_, [], rfl, ?_⟩
      cases hshift : lowerRuns.findSome? (shiftBy? c.toNat) with
      | none => exact h
      | some place =>
        obtain ⟨run, hr, hplace⟩ := List.exists_of_findSome?_eq_some hshift
        exact isDigit_ofNat (le_of_shiftBy? hr hplace)

/-! ### Tokens -/

theorem tokensFrom_row {ds cs : List Char} (hd : IsRow ds) (hc : NoDigit cs.head?) (n : Nat) :
    tokensFrom (some n) (ds ++ cs) =
      .number (Nat.ofDigitChars 10 ds n) :: tokensFrom none cs := by
  induction ds generalizing n with
  | nil =>
    cases cs with
    | nil => rfl
    | cons c cs =>
      have hno : c.isDigit = false := hc c rfl
      rw [List.nil_append, tokensFrom, if_neg (by simp [hno]), tokensFrom, if_neg (by simp [hno])]
      rfl
  | cons d ds ih =>
    have hyes := hd d List.mem_cons_self
    rw [List.cons_append, tokensFrom, if_pos hyes, ih fun e he => hd e (List.mem_cons_of_mem d he),
      Nat.ofDigitChars_cons, Option.getD_some, Nat.mul_comm]

/-- A row of digits is one token, if it is not cut off. -/
theorem tokensFrom_number {ds cs : List Char} (hd : IsRow ds) (hne : ds ≠ [])
    (hc : NoDigit cs.head?) :
    tokensFrom none (ds ++ cs) = .number (rowValue ds) :: tokensFrom none cs := by
  cases ds with
  | nil => exact absurd rfl hne
  | cons d ds =>
    rw [List.cons_append, tokensFrom, if_pos (hd d List.mem_cons_self),
      tokensFrom_row (fun e he => hd e (List.mem_cons_of_mem d he)) hc, rowValue,
      Nat.ofDigitChars_cons]
    rfl

theorem tokensFrom_letter {c : Char} (h : c.isDigit = false) (cs : List Char) :
    tokensFrom none (c :: cs) = .letter (smallChar c) :: tokensFrom none cs := by
  rw [tokensFrom, if_neg (by simp [h])]
  rfl

/-! ### Keys -/

/-- What decides the place of characters, but for case and zeros in front of numbers. -/
def keysOf (cs : List Char) : List (List Nat) :=
  (tokensFrom none cs).map Token.key

theorem keysOf_number {ds cs : List Char} (hd : IsRow ds) (hne : ds ≠ [])
    (hc : NoDigit cs.head?) :
    keysOf (ds ++ cs) = ['0'.toNat, rowValue ds] :: keysOf cs := by
  rw [keysOf, tokensFrom_number hd hne hc]
  rfl

theorem keysOf_letter {c : Char} (h : c.isDigit = false) (cs : List Char) :
    keysOf (c :: cs) = (smallChar c).map Char.toNat :: keysOf cs := by
  rw [keysOf, tokensFrom_letter h]
  rfl

theorem isRow_takeWhile (cs : List Char) : IsRow (cs.takeWhile Char.isDigit) :=
  fun _ hc => List.mem_takeWhile_imp hc

theorem noDigit_dropWhile (cs : List Char) : NoDigit (cs.dropWhile Char.isDigit).head? := by
  intro c hc
  have hfront := List.head?_dropWhile_not Char.isDigit cs
  rw [hc] at hfront
  exact hfront

/-- A text that begins with a digit begins with the token of the whole row. -/
theorem keysOf_digit {c : Char} (h : c.isDigit = true) (cs : List Char) :
    keysOf (c :: cs) =
      ['0'.toNat, rowValue (c :: cs.takeWhile Char.isDigit)] ::
        keysOf (cs.dropWhile Char.isDigit) := by
  have hrow := isRow_takeWhile (c :: cs)
  rw [List.takeWhile_cons_of_pos h] at hrow
  rw [← keysOf_number hrow (List.cons_ne_nil _ _) (noDigit_dropWhile cs), List.cons_append,
    List.takeWhile_append_dropWhile]

theorem keysOf_ne_nil (c : Char) (cs : List Char) : keysOf (c :: cs) ≠ [] := by
  cases h : c.isDigit with
  | true => simp [keysOf_digit h]
  | false => simp [keysOf_letter h]

theorem compare_numbers (m n : Nat) :
    compare ['0'.toNat, m] ['0'.toNat, n] = compare m n := by
  rw [List.compare_cons_cons, Std.compare_self, List.compare_cons_cons, List.compare_nil_nil,
    Ordering.then_eq]
  rfl

theorem compare_letters (as bs : List Char) :
    compare (as.map Char.toNat) (bs.map Char.toNat) = compare as bs := by
  induction as generalizing bs with
  | nil => cases bs <;> rfl
  | cons a as ih =>
    cases bs with
    | nil => rfl
    | cons b bs =>
      rw [List.map_cons, List.map_cons, List.compare_cons_cons, List.compare_cons_cons, ih,
        compare_toNat]

/-- A digit and another character differ, and stand in the same order as the number that begins
with the digit and the other character. -/
theorem compare_number_letter {a b : Char} (ha : a.isDigit = true) (hb : b.isDigit = false)
    (n : Nat) :
    compare ['0'.toNat, n] ((smallChar b).map Char.toNat) = compare (smallChar a) (smallChar b) ∧
      compare (smallChar a) (smallChar b) ≠ .eq := by
  obtain ⟨d, ds, hsmall, hd⟩ := exists_smallChar hb
  obtain ⟨hval, hlt⟩ := toNat_eq_of_isDigit ha
  have hout : ¬(48 ≤ d.toNat ∧ d.toNat ≤ 57) := by
    rw [← Bool.not_eq_true, Char.isDigit_iff_toNat] at hd
    exact hd
  rw [hsmall, smallChar_of_isDigit ha, List.map_cons, List.compare_cons_cons,
    List.compare_cons_cons, compare_toNat]
  show (compare 48 d.toNat).then _ = _ ∧ _
  by_cases hbelow : d.toNat < 48
  · rw [Nat.compare_eq_gt.mpr hbelow, Nat.compare_eq_gt.mpr (by omega)]
    exact ⟨rfl, nofun⟩
  · rw [Nat.compare_eq_lt.mpr (by omega), Nat.compare_eq_lt.mpr (by omega)]
    exact ⟨rfl, nofun⟩

theorem compare_letter_number {a b : Char} (ha : a.isDigit = false) (hb : b.isDigit = true)
    (n : Nat) :
    compare ((smallChar a).map Char.toNat) ['0'.toNat, n] = compare (smallChar a) (smallChar b) ∧
      compare (smallChar a) (smallChar b) ≠ .eq := by
  obtain ⟨heq, hne⟩ := compare_number_letter hb ha n
  have hkeys : compare ((smallChar a).map Char.toNat) ['0'.toNat, n] =
      (compare ['0'.toNat, n] ((smallChar a).map Char.toNat)).swap := Std.OrientedOrd.eq_swap
  have hsmall : compare (smallChar a) (smallChar b) =
      (compare (smallChar b) (smallChar a)).swap := Std.OrientedOrd.eq_swap
  rw [hkeys, heq, hsmall]
  refine ⟨rfl, fun hswap => hne ?_⟩
  rwa [Ordering.swap_eq_eq] at hswap

theorem then_of_ne_eq {o : Ordering} (h : o ≠ .eq) (x y : Ordering) : o.then x = o.then y := by
  cases o with
  | lt => rfl
  | eq => exact absurd rfl h
  | gt => rfl

/-- The walk comes to the order by tokens. -/
theorem walk_eq (as bs : List Char) : walk as bs = compare (keysOf as) (keysOf bs) := by
  induction as, bs using walk.induct with
  | case1 =>
    rw [walk]
    rfl
  | case2 b bs =>
    obtain ⟨k, ks, hk⟩ := List.exists_cons_of_ne_nil (keysOf_ne_nil b bs)
    rw [walk, hk]
    rfl
  | case3 a as =>
    obtain ⟨k, ks, hk⟩ := List.exists_cons_of_ne_nil (keysOf_ne_nil a as)
    rw [walk, hk]
    rfl
  | case4 a as b bs h ih =>
    obtain ⟨ha, hb⟩ := Bool.and_eq_true_iff.mp h
    have hrow (c : Char) (cs : List Char) (hc : c.isDigit = true) :
        IsRow (c :: cs.takeWhile Char.isDigit) :=
      List.forall_mem_cons.mpr ⟨hc, isRow_takeWhile cs⟩
    rw [walk, if_pos h, ih, compareRows_eq (hrow a as ha) (hrow b bs hb), keysOf_digit ha,
      keysOf_digit hb, List.compare_cons_cons, compare_numbers]
  | case5 a as b bs h ih =>
    rw [walk, if_neg h, ih]
    cases ha : a.isDigit with
    | true =>
      cases hb : b.isDigit with
      | true => exact absurd (Bool.and_eq_true_iff.mpr ⟨ha, hb⟩) h
      | false =>
        -- The tokens differ as the characters do, and nothing behind them counts.
        obtain ⟨heq, hne⟩ := compare_number_letter ha hb (rowValue (a :: as.takeWhile Char.isDigit))
        rw [keysOf_digit ha, keysOf_letter hb, List.compare_cons_cons, heq]
        exact then_of_ne_eq hne _ _
    | false =>
      cases hb : b.isDigit with
      | true =>
        obtain ⟨heq, hne⟩ := compare_letter_number ha hb (rowValue (b :: bs.takeWhile Char.isDigit))
        rw [keysOf_letter ha, keysOf_digit hb, List.compare_cons_cons, heq]
        exact then_of_ne_eq hne _ _
      | false =>
        rw [keysOf_letter ha, keysOf_letter hb, List.compare_cons_cons, compare_letters]

theorem foldedCompare_eq_walk (a b : String) : foldedCompare a b = walk a.toList b.toList :=
  (walk_eq a.toList b.toList).symm

end MinerFleet.Text
