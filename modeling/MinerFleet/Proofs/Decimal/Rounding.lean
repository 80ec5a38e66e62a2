/-
Rounding of exact amounts.

* `Quotient.round_mono` — larger amounts are not rounded to smaller numbers;
* `Quotient.abs_round_sub_le` — an amount is rounded by a half at most;
* `nearestWhole`, `nearestMultiple` — the nearest whole number, and the nearest multiple of a step;
* `nearestMultiple_le_zpow`, `zpow_le_nearestMultiple` — no coarser power is passed;
* `Quotient.roundedTo` — an amount rounded to a multiple of a power of ten.

An amount is a whole number and a rest below one (`round_cases`), and the rest decides. All that
follows is said of the values of amounts, so that it does not matter how an amount is written as a
quotient (`Quotient.round_eq`). The steps are powers of ten where amounts are shown, and powers of
two where they become floats.
-/
import MinerFleet.Proofs.Decimal.Amount

namespace MinerFleet.Decimal

namespace Quotient

/-! ### Values -/

theorem den_pos' (q : Quotient) : (0 : ℚ) < q.den :=
  Nat.cast_pos.mpr q.den_pos

/-- Comparisons with whole numbers, by multiplication. -/
theorem le_value_iff {q : Quotient} {n : Nat} : (n : ℚ) ≤ q.value ↔ n * q.den ≤ q.num := by
  rw [value, le_div_iff₀ q.den_pos']
  exact_mod_cast Iff.rfl

theorem value_eq_iff {v w : Quotient} : v.value = w.value ↔ v.num * w.den = w.num * v.den := by
  rw [value, value, div_eq_div_iff v.den_pos'.ne' w.den_pos'.ne']
  exact_mod_cast Iff.rfl

theorem value_eq_natCast_iff {q : Quotient} {n : ℕ} : q.value = n ↔ q.num = n * q.den := by
  rw [value, div_eq_iff q.den_pos'.ne']
  exact_mod_cast Iff.rfl

theorem value_lt_one_iff {q : Quotient} : q.value < 1 ↔ q.num < q.den := by
  rw [value, div_lt_one q.den_pos', Nat.cast_lt]

theorem value_pos_iff {q : Quotient} : 0 < q.value ↔ q.num ≠ 0 := by
  rw [value, div_pos_iff_of_pos_right q.den_pos', Nat.cast_pos, Nat.pos_iff_ne_zero]

theorem value_ofNat (n : ℕ) : (ofNat n).value = n := by
  rw [value, ofNat, Nat.cast_one, div_one]

theorem value_shift (q : Quotient) (e : ℤ) : (q.shift e).value = q.value * 10 ^ e := by
  cases e with
  | ofNat n =>
    show ((q.num * 10 ^ n : ℕ) : ℚ) / q.den = q.num / q.den * 10 ^ (n : ℤ)
    rw [zpow_natCast]
    push_cast
    ring
  | negSucc n =>
    show (q.num : ℚ) / (q.den * 10 ^ (n + 1) : ℕ) = q.num / q.den * 10 ^ Int.negSucc n
    rw [zpow_negSucc]
    push_cast
    rw [div_mul_eq_div_div, div_eq_mul_inv]

/-- A power of ten as an amount. -/
theorem value_shift_one (k : ℤ) : ((ofNat 1).shift k).value = 10 ^ k := by
  rw [value_shift, value_ofNat, Nat.cast_one, one_mul]

/-! ### Whole numbers -/

/-- The whole part of an amount and the rest, and the number that it is rounded to. -/
theorem round_cases (q : Quotient) :
    ∃ (k : ℕ) (f : ℚ), q.value = k + f ∧ 0 ≤ f ∧ f < 1 ∧
      ((f < 1 / 2 ∧ q.round = k) ∨ (1 / 2 < f ∧ q.round = k + 1) ∨
        (f = 1 / 2 ∧ q.round = k + k % 2)) := by
  have hden := q.den_pos'
  have hsplit : (q.num : ℚ) = q.den * (q.num / q.den : ℕ) + (q.num % q.den : ℕ) := by
    exact_mod_cast (Nat.div_add_mod q.num q.den).symm
  have hrest : ((q.num % q.den : ℕ) : ℚ) < q.den := by
    exact_mod_cast Nat.mod_lt q.num q.den_pos
  refine ⟨q.num / q.den, (q.num % q.den : ℕ) / q.den, ?_, by positivity,
    (div_lt_one hden).mpr hrest, ?_⟩
  · rw [value, hsplit, add_div, mul_div_cancel_left₀ _ hden.ne']
  · have hlt : ((q.num % q.den : ℕ) : ℚ) / q.den < 1 / 2 ↔ 2 * (q.num % q.den) < q.den := by
      rw [div_lt_div_iff₀ hden two_pos, mul_comm, one_mul]
      exact_mod_cast Iff.rfl
    have hgt : 1 / 2 < ((q.num % q.den : ℕ) : ℚ) / q.den ↔ q.den < 2 * (q.num % q.den) := by
      rw [div_lt_div_iff₀ two_pos hden, mul_comm _ (2 : ℚ), one_mul]
      exact_mod_cast Iff.rfl
    rw [hlt, hgt, round]
    by_cases hlow : 2 * (q.num % q.den) < q.den
    · exact .inl ⟨hlow, if_pos hlow⟩
    · by_cases hhigh : q.den < 2 * (q.num % q.den)
      · exact .inr (.inl ⟨hhigh, (if_neg hlow).trans (if_pos hhigh)⟩)
      · exact .inr (.inr ⟨le_antisymm (not_lt.mp (mt hgt.mp hhigh)) (not_lt.mp (mt hlt.mp hlow)),
          (if_neg hlow).trans (if_neg hhigh)⟩)

/-- An amount is rounded by a half at most. -/
theorem abs_round_sub_le (q : Quotient) : |(q.round : ℚ) - q.value| ≤ 1 / 2 := by
  obtain ⟨k, f, hq, hf, hf', ⟨h, hr⟩ | ⟨h, hr⟩ | ⟨h, hr⟩⟩ := round_cases q
  · rw [hq, hr, abs_le]
    constructor <;> linarith
  · rw [hq, hr, abs_le]
    push_cast
    constructor <;> linarith
  · rw [hq, hr, abs_le]
    push_cast
    rcases Nat.mod_two_eq_zero_or_one k with hk | hk <;> rw [hk] <;> constructor <;> norm_num [h]

/-- Larger amounts are not rounded to smaller numbers. -/
theorem round_mono {v w : Quotient} (h : v.value ≤ w.value) : v.round ≤ w.round := by
  obtain ⟨k, f, hv, hf, hf', hround⟩ := round_cases v
  obtain ⟨l, g, hw, hg, hg', hround'⟩ := round_cases w
  rw [hv, hw] at h
  rcases Nat.lt_trichotomy k l with hkl | rfl | hlk
  · omega
  · have hfg : f ≤ g := by linarith
    rcases hround with ⟨hlow, hr⟩ | ⟨hhigh, hr⟩ | ⟨hhalf, hr⟩
    · omega
    · have hg : 1 / 2 < g := lt_of_lt_of_le hhigh hfg
      rcases hround' with ⟨hlow', -⟩ | ⟨-, hr'⟩ | ⟨hhalf', -⟩
      · exact absurd hlow' (by linarith)
      · omega
      · exact absurd hhalf' (by linarith)
    · rcases hround' with ⟨hlow', -⟩ | ⟨-, hr'⟩ | ⟨-, hr'⟩
      · exact absurd hlow' (by linarith)
      · omega
      · omega
  · have : (l : ℚ) + 1 ≤ k := by exact_mod_cast hlk
    linarith

/-- The number that an amount is rounded to does not depend on how it is written. -/
theorem round_congr {v w : Quotient} (h : v.value = w.value) : v.round = w.round :=
  le_antisymm (round_mono h.le) (round_mono h.ge)

/-- A whole number is rounded to itself. -/
theorem round_of_value_eq {q : Quotient} {n : ℕ} (h : q.value = n) : q.round = n := by
  have hn : (ofNat n).round = n := by
    simp [ofNat, round, Nat.mod_one]
  exact (round_congr (h.trans (value_ofNat n).symm)).trans hn

theorem value_nonneg (q : Quotient) : 0 ≤ q.value :=
  div_nonneg (Nat.cast_nonneg _) (Nat.cast_nonneg _)

end Quotient

variable {v w : ℚ}

/-- A rational number as a quotient; what is negative becomes zero. -/
def ratio (v : ℚ) : Quotient :=
  ⟨v.num.toNat, v.den, v.den_pos⟩

theorem value_ratio (hv : 0 ≤ v) : (ratio v).value = v := by
  have hnum : (v.num.toNat : ℤ) = v.num := Int.toNat_of_nonneg (Rat.num_nonneg.mpr hv)
  calc (ratio v).value = ((v.num.toNat : ℤ) : ℚ) / v.den := by
        rw [Int.cast_natCast]
        rfl
    _ = v := by rw [hnum, Rat.num_div_den]

/-- The whole number nearest to an amount; a half goes to the even neighbour. -/
def nearestWhole (v : ℚ) : ℕ :=
  (ratio v).round

theorem Quotient.round_eq (q : Quotient) : q.round = nearestWhole q.value :=
  round_congr (value_ratio q.value_nonneg).symm

theorem nearestWhole_mono (hv : 0 ≤ v) (h : v ≤ w) : nearestWhole v ≤ nearestWhole w :=
  Quotient.round_mono (by rwa [value_ratio hv, value_ratio (hv.trans h)])

theorem abs_nearestWhole_sub_le (hv : 0 ≤ v) : |(nearestWhole v : ℚ) - v| ≤ 1 / 2 := by
  have := (ratio v).abs_round_sub_le
  rwa [value_ratio hv] at this

theorem nearestWhole_natCast (n : ℕ) : nearestWhole n = n :=
  Quotient.round_of_value_eq (value_ratio (Nat.cast_nonneg n))

/-! ### Multiples of a step -/

/-- The multiple of a step that is nearest to an amount. -/
def nearestMultiple (step v : ℚ) : ℚ :=
  nearestWhole (v / step) * step

section

variable {step : ℚ} (hstep : 0 < step)
include hstep

theorem abs_nearestMultiple_sub_le (hv : 0 ≤ v) : |nearestMultiple step v - v| ≤ step / 2 := by
  calc |nearestMultiple step v - v|
      = |(nearestWhole (v / step) : ℚ) - v / step| * step := by
        rw [← abs_of_pos hstep, ← abs_mul, abs_of_pos hstep, sub_mul,
          div_mul_cancel₀ _ hstep.ne', nearestMultiple]
    _ ≤ 1 / 2 * step := by
        gcongr
        exact abs_nearestWhole_sub_le (by positivity)
    _ = step / 2 := by ring

theorem nearestMultiple_mono (hv : 0 ≤ v) (h : v ≤ w) :
    nearestMultiple step v ≤ nearestMultiple step w := by
  rw [nearestMultiple, nearestMultiple]
  have hle : nearestWhole (v / step) ≤ nearestWhole (w / step) :=
    nearestWhole_mono (by positivity) (by gcongr)
  gcongr

/-- A multiple stays as it is. -/
theorem nearestMultiple_mul (n : ℕ) : nearestMultiple step (n * step) = n * step := by
  rw [nearestMultiple, mul_div_cancel_right₀ _ hstep.ne', nearestWhole_natCast]

end

/-! ### Multiples of powers -/

section

variable {b : ℕ} {e k : ℤ}

/-- A multiple of a power is one of any finer power. -/
theorem exists_mul_zpow (hb : 0 < b) (n : ℕ) (he : e ≤ k) :
    ∃ n' : ℕ, (n : ℚ) * (b : ℚ) ^ k = n' * (b : ℚ) ^ e := by
  refine ⟨n * b ^ (k - e).toNat, ?_⟩
  have hexp : k = (k - e).toNat + e := by omega
  conv_lhs => rw [hexp, zpow_add₀ (Nat.cast_ne_zero.mpr hb.ne'), zpow_natCast]
  push_cast
  ring

theorem nearestMultiple_zpow (hb : 0 < b) (he : e ≤ k) :
    nearestMultiple ((b : ℚ) ^ e) ((b : ℚ) ^ k) = (b : ℚ) ^ k := by
  obtain ⟨n, hn⟩ := exists_mul_zpow hb 1 he
  rw [Nat.cast_one, one_mul] at hn
  rw [hn]
  exact nearestMultiple_mul (zpow_pos (Nat.cast_pos.mpr hb) e) n

/-- What is at most a power is rounded to at most that. -/
theorem nearestMultiple_le_zpow (hb : 0 < b) (he : e ≤ k) (hv : 0 ≤ v) (h : v ≤ (b : ℚ) ^ k) :
    nearestMultiple ((b : ℚ) ^ e) v ≤ (b : ℚ) ^ k :=
  (nearestMultiple_mono (zpow_pos (Nat.cast_pos.mpr hb) e) hv h).trans_eq
    (nearestMultiple_zpow hb he)

/-- What is at least a power is rounded to at least that. -/
theorem zpow_le_nearestMultiple (hb : 0 < b) (he : e ≤ k) (h : (b : ℚ) ^ k ≤ v) :
    (b : ℚ) ^ k ≤ nearestMultiple ((b : ℚ) ^ e) v :=
  (nearestMultiple_zpow hb he).ge.trans
    (nearestMultiple_mono (zpow_pos (Nat.cast_pos.mpr hb) e) (by positivity) h)

end

/-! ### Multiples of powers of ten -/

namespace Quotient

/-- The multiple of ten to the power `e` that is nearest to an amount. -/
def roundedTo (q : Quotient) (e : ℤ) : ℚ :=
  (q.shift (-e)).round * 10 ^ e

theorem roundedTo_eq (q : Quotient) (e : ℤ) : q.roundedTo e = nearestMultiple (10 ^ e) q.value := by
  rw [roundedTo, nearestMultiple, round_eq, value_shift, zpow_neg, div_eq_mul_inv]

theorem abs_roundedTo_sub_le (q : Quotient) (e : ℤ) :
    |q.roundedTo e - q.value| ≤ 10 ^ e / 2 := by
  rw [roundedTo_eq]
  exact abs_nearestMultiple_sub_le (by positivity) q.value_nonneg

theorem roundedTo_mono {v w : Quotient} (h : v.value ≤ w.value) (e : ℤ) :
    v.roundedTo e ≤ w.roundedTo e := by
  rw [roundedTo_eq, roundedTo_eq]
  exact nearestMultiple_mono (by positivity) v.value_nonneg h

/-- A multiple stays as it is. -/
theorem roundedTo_eq_value {q : Quotient} {e : ℤ} {n : ℕ} (h : q.value = n * 10 ^ e) :
    q.roundedTo e = q.value := by
  rw [roundedTo_eq, h]
  exact nearestMultiple_mul (by positivity) n

/-- What is at most a power of ten is rounded to at most that. -/
theorem roundedTo_le_pow {q : Quotient} {e k : ℤ} (he : e ≤ k) (h : q.value ≤ 10 ^ k) :
    q.roundedTo e ≤ 10 ^ k := by
  rw [roundedTo_eq]
  exact nearestMultiple_le_zpow (b := 10) (by decide) he q.value_nonneg h

/-- What is at least a power of ten is rounded to at least that. -/
theorem pow_le_roundedTo {q : Quotient} {e k : ℤ} (he : e ≤ k) (h : 10 ^ k ≤ q.value) :
    10 ^ k ≤ q.roundedTo e := by
  rw [roundedTo_eq]
  exact zpow_le_nearestMultiple (b := 10) (by decide) he h

end Quotient

end MinerFleet.Decimal
