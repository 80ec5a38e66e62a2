/-
Numbers within texts are ordered by value.

* `keysOf_append` — what stands behind a character that is no digit is taken apart by itself;
* `embedded_numbers_decide` — texts that agree up to a number are ordered by this number, and by
  what stands behind it if the numbers are the same.

A text keeps the tokens of the part in front of the number, whatever digits there are in it, and
the number is one token, as it is cut off on both sides. So two such texts have their tokens in
common up to the number, and the first difference decides.
-/
import MinerFleet.Proofs.Text.Walk

namespace MinerFleet.Text

theorem tokensFrom_append {ps : List Char} (h : NoDigit ps.getLast?) (hne : ps ≠ [])
    (run : Option Nat) (cs : List Char) :
    tokensFrom run (ps ++ cs) = tokensFrom run ps ++ tokensFrom none cs := by
  induction ps generalizing run with
  | nil => exact absurd rfl hne
  | cons c ps ih =>
    cases ps with
    | nil =>
      have hc : c.isDigit = false := h c rfl
      rw [List.singleton_append, tokensFrom, if_neg (by simp [hc]), tokensFrom,
        if_neg (by simp [hc]), List.append_assoc]
      rfl
    | cons d ps =>
      have hrest (run : Option Nat) := ih (fun e he => h e he) (List.cons_ne_nil d ps) run
      rw [List.cons_append, tokensFrom, tokensFrom, hrest, hrest]
      split
      · rfl
      · rw [List.append_assoc, List.cons_append]

theorem keysOf_append {ps : List Char} (h : NoDigit ps.getLast?) (cs : List Char) :
    keysOf (ps ++ cs) = keysOf ps ++ keysOf cs := by
  by_cases hne : ps = []
  · rw [hne]
    rfl
  · rw [keysOf, tokensFrom_append h hne, List.map_append]
    rfl

/-- What two rows have in common at the front does not decide. -/
theorem compare_append_left {α : Type} [Ord α] [Std.ReflOrd α] (xs ys zs : List α) :
    compare (xs ++ ys) (xs ++ zs) = compare ys zs := by
  induction xs with
  | nil => rfl
  | cons x xs ih =>
    rw [List.cons_append, List.cons_append, List.compare_cons_cons, Std.compare_self, ih]
    rfl

section

variable {p m n s t : String}

theorem foldedKey_of_number (hp : NoDigit p.toList.getLast?) (hm : IsRow m.toList) (hne : m ≠ "")
    (hs : NoDigit s.toList.head?) :
    foldedKey (p ++ m ++ s) =
      keysOf p.toList ++ ['0'.toNat, rowValue m.toList] :: foldedKey s := by
  have hcs : m.toList ≠ [] := fun hnil => hne (String.toList_eq_nil_iff.mp hnil)
  show keysOf (p ++ m ++ s).toList = _
  rw [String.toList_append, String.toList_append, List.append_assoc, keysOf_append hp,
    keysOf_number hm hcs hs]
  rfl

/-- The order of two texts that agree up to a number. -/
theorem foldedCompare_of_numbers (hp : NoDigit p.toList.getLast?)
    (hm : IsRow m.toList) (hm' : m ≠ "") (hn : IsRow n.toList) (hn' : n ≠ "")
    (hs : NoDigit s.toList.head?) (ht : NoDigit t.toList.head?) :
    foldedCompare (p ++ m ++ s) (p ++ n ++ t) =
      (compare (rowValue m.toList) (rowValue n.toList)).then (foldedCompare s t) := by
  rw [foldedCompare, foldedKey_of_number hp hm hm' hs, foldedKey_of_number hp hn hn' ht,
    compare_append_left, List.compare_cons_cons, compare_numbers]
  rfl

/-- Numbers within texts are ordered by value. Of two texts that agree up to a row of digits in
each, the one with the smaller number stands first, however long the rows are and however many
zeros stand at their fronts. Where the numbers are the same, the texts are ordered by what stands
behind them, and by their characters only if that makes no difference. Rows are compared by their
lengths and characters, which is the order of their numbers. -/
theorem embedded_numbers_decide (hp : NoDigit p.toList.getLast?)
    (hm : IsRow m.toList) (hm' : m ≠ "") (hn : IsRow n.toList) (hn' : n ≠ "")
    (hs : NoDigit s.toList.head?) (ht : NoDigit t.toList.head?) :
    (rowValue m.toList < rowValue n.toList →
      naturalCompare (p ++ m ++ s) (p ++ n ++ t) = .lt) ∧
    (rowValue m.toList = rowValue n.toList →
      naturalCompare (p ++ m ++ s) (p ++ n ++ t) =
        (foldedCompare s t).then (compare (p ++ m ++ s) (p ++ n ++ t))) ∧
    compareRows m.toList n.toList = compare (rowValue m.toList) (rowValue n.toList) := by
  have hfolded := foldedCompare_of_numbers hp hm hm' hn hn' hs ht
  refine ⟨fun hlt => ?_, fun heq => ?_, compareRows_eq hm hn⟩
  · rw [naturalCompare, hfolded, Nat.compare_eq_lt.mpr hlt]
    rfl
  · rw [naturalCompare, hfolded, heq, Std.compare_self]
    rfl

end

/-- Neither zeros at the front nor numbers beyond 64 bits confuse the order. -/
theorem embedded_numbers_of_rigs :
    naturalCompare "rig-2 no-18446744073709551615b" "rig-2 no-0018446744073709551616a" = .lt ∧
      naturalCompare "rig-007B" "rig-7a" = .gt := by
  have hlarge := (embedded_numbers_decide (p := "rig-2 no-") (m := "18446744073709551615")
    (n := "0018446744073709551616") (s := "b") (t := "a") (by decide) (by decide) (by decide)
    (by decide) (by decide) (by decide) (by decide)).1
  have hsame := (embedded_numbers_decide (p := "rig-") (m := "007") (n := "7") (s := "B")
    (t := "a") (by decide) (by decide) (by decide) (by decide) (by decide) (by decide)
    (by decide)).2.1
  exact ⟨hlarge (by decide), (hsame (by decide)).trans (by decide)⟩

end MinerFleet.Text
