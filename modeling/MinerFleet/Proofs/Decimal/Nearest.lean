/-
The float that is nearest to an amount.

* `lastBit` — the last bit that floats of the size of an amount have;
* `nearestFloat` — the nearest multiple of this bit;
* `Nearest` — a float in parts that is this multiple, or infinite if no float is as large;
* `nearest_roundWithAccuracy` — what is rounded becomes the nearest float.

Rounding keeps the order of amounts, as the last bit gets coarser at powers of two only, and these
are multiples of it on either side (`nearestFloat_mono`). It changes an amount by a half of the last
bit at most (`abs_nearestFloat_sub_le`), and not at all where 53 bits are enough
(`nearestFloat_of_bits`).

A mantissa and its two bits know as much of an amount as rounding needs (`Represents`), and they
still do when they are shifted. So the mantissa is rounded to the nearest whole number. It may have
got one bit too many by that, and is shifted once more then, without a loss (`carried_mantissa`).
-/
import Mathlib.Data.Int.Log
import MinerFleet.Proofs.Decimal.Rounding

namespace MinerFleet.Decimal

open Float.Model Float.Model.UnpackedFloat

variable {v w : ℚ} {m : ℕ} {e : ℤ}

/-- The last bit of floats of the size of an amount, by its exponent: they have 53 bits. -/
def lastBit (v : ℚ) : ℤ :=
  Int.log 2 v - 52

/-- The float that is nearest to an amount, if floats get as large and as small as this. -/
def nearestFloat (v : ℚ) : ℚ :=
  nearestMultiple (2 ^ lastBit v) v

theorem lastBit_le {k : ℤ} (h : Int.log 2 v ≤ k) : lastBit v ≤ k := by
  rw [lastBit]
  omega

theorem two_zpow_le_iff (hv : 0 < v) {k : ℤ} : (2 : ℚ) ^ k ≤ v ↔ k ≤ Int.log 2 v := by
  have := Int.zpow_le_iff_le_log (b := 2) (by decide) (x := k) hv
  rwa [Nat.cast_ofNat] at this

theorem lt_two_zpow_log (hv : 0 < v) : v < 2 ^ (Int.log 2 v + 1) :=
  not_le.mp (mt (two_zpow_le_iff hv).mp (by omega))

theorem log_eq_of_bounds {k : ℤ} (hlow : (2 : ℚ) ^ k ≤ v) (hhigh : v < 2 ^ (k + 1)) :
    Int.log 2 v = k := by
  have hv : 0 < v := (zpow_pos two_pos k).trans_le hlow
  have hle := (two_zpow_le_iff hv).mp hlow
  have hlt := mt (two_zpow_le_iff hv).mpr (not_le.mpr hhigh)
  omega

theorem log_mul_zpow {m : ℕ} (hm : 0 < m) (e : ℤ) :
    Int.log 2 ((m : ℚ) * 2 ^ e) = m.log2 + e := by
  refine log_eq_of_bounds ?_ ((lt_pow_log m e).trans_eq (by ring_nf))
  have hlow : (2 : ℚ) ^ (m.log2 : ℤ) ≤ m := by
    exact_mod_cast Nat.log2_self_le (Nat.ne_of_gt hm)
  rw [zpow_add₀ two_ne_zero]
  gcongr

/-- A number with 53 bits is a float. -/
theorem nearestFloat_of_bits {m : ℕ} (hm : 0 < m) (hlog : m.log2 ≤ 52) (e : ℤ) :
    nearestFloat (m * 2 ^ e) = m * 2 ^ e := by
  have hbit : lastBit (m * 2 ^ e) ≤ e := by
    rw [lastBit, log_mul_zpow hm]
    omega
  obtain ⟨n, hn⟩ := exists_mul_zpow (b := 2) (by decide) m hbit
  rw [Nat.cast_ofNat] at hn
  generalize (m : ℚ) * 2 ^ e = v at hn ⊢
  calc nearestFloat v = nearestMultiple (2 ^ lastBit v) (n * 2 ^ lastBit v) := by
        rw [← hn, nearestFloat]
    _ = n * 2 ^ lastBit v := nearestMultiple_mul (zpow_pos two_pos _) n
    _ = v := hn.symm

theorem nearestFloat_nonneg (v : ℚ) : 0 ≤ nearestFloat v := by
  rw [nearestFloat, nearestMultiple]
  positivity

theorem nearestFloat_zero : nearestFloat 0 = 0 := by
  rw [nearestFloat, nearestMultiple, zero_div, ← Nat.cast_zero (R := ℚ), nearestWhole_natCast,
    Nat.cast_zero, zero_mul]

theorem nearestFloat_two_zpow (k : ℤ) : nearestFloat (2 ^ k) = 2 ^ k := by
  have := nearestFloat_of_bits (m := 1) (by decide) (by decide) k
  rwa [Nat.cast_one, one_mul] at this

/-- Rounding changes an amount by half of the last bit at most. -/
theorem abs_nearestFloat_sub_le (hv : 0 < v) : |nearestFloat v - v| ≤ v / 2 ^ 53 := by
  have hlow : (2 : ℚ) ^ (lastBit v + 52) ≤ v := (two_zpow_le_iff hv).mpr (by rw [lastBit]; omega)
  rw [zpow_add₀ two_ne_zero] at hlow
  refine (abs_nearestMultiple_sub_le (zpow_pos two_pos _) hv.le).trans ?_
  rw [le_div_iff₀ (by positivity)]
  norm_num at hlow ⊢
  linarith

/-- Rounding keeps the order of amounts. -/
theorem nearestFloat_mono (hv : 0 ≤ v) (h : v ≤ w) : nearestFloat v ≤ nearestFloat w := by
  rcases hv.eq_or_lt with rfl | hv
  · exact nearestFloat_zero.trans_le (nearestFloat_nonneg w)
  have hw : 0 < w := hv.trans_le h
  have hlog : Int.log 2 v ≤ Int.log 2 w := Int.log_mono_right hv h
  rcases hlog.eq_or_lt with heq | hlt
  · rw [nearestFloat, nearestFloat, lastBit, lastBit, heq]
    exact nearestMultiple_mono (zpow_pos two_pos _) hv.le h
  · -- There is a power of two in between, which none of both is rounded beyond.
    have hbetween : v ≤ 2 ^ Int.log 2 w :=
      (lt_two_zpow_log hv).le.trans (zpow_le_zpow_right₀ one_le_two hlt)
    calc nearestFloat v ≤ 2 ^ Int.log 2 w :=
          nearestMultiple_le_zpow (b := 2) (by decide) (lastBit_le hlog) hv.le hbetween
      _ ≤ nearestFloat w :=
          zpow_le_nearestMultiple (b := 2) (by decide) (lastBit_le le_rfl)
            ((two_zpow_le_iff hw).mpr le_rfl)

theorem nearestFloat_le_two_zpow (hv : 0 ≤ v) {k : ℤ} (h : v ≤ 2 ^ k) : nearestFloat v ≤ 2 ^ k :=
  (nearestFloat_mono hv h).trans_eq (nearestFloat_two_zpow k)

theorem one_le_nearestFloat (h : 1 ≤ v) : 1 ≤ nearestFloat v := by
  have := nearestFloat_two_zpow 0
  rw [zpow_zero] at this
  exact this.ge.trans (nearestFloat_mono zero_le_one h)

/-! ### Mantissas -/

/-- Twice a number, divided: its rest may make one more. -/
theorem two_mul_div (a : ℕ) {b : ℕ} (hb : 0 < b) :
    (2 * (a % b) < b ∧ 2 * a / b = 2 * (a / b) ∧ 2 * a % b = 2 * (a % b)) ∨
      (b ≤ 2 * (a % b) ∧ 2 * a / b = 2 * (a / b) + 1 ∧ 2 * a % b = 2 * (a % b) - b) := by
  have hsplit := Nat.div_add_mod a b
  have hrest := Nat.mod_lt a hb
  have htwice := Nat.mul_left_comm b 2 (a / b)
  by_cases hlow : 2 * (a % b) < b
  · refine .inl ⟨hlow, (Nat.div_mod_unique hb).mpr ⟨?_, hlow⟩⟩
    omega
  · refine .inr ⟨not_lt.mp hlow, (Nat.div_mod_unique hb).mpr ⟨?_, by omega⟩⟩
    rw [Nat.mul_add]
    omega

/-- The rest of a division tells on which side of a half the quotient is. -/
theorem represents_div (a : ℕ) {b : ℕ} (hb : 0 < b) :
    Represents (.ofMantissaAndAccuracy (a / b) (accuracyOfFraction (a % b) b)) a b := by
  have hcases := two_mul_div a hb
  rw [accuracyOfFraction]
  by_cases hzero : a % b = 0
  · rw [if_pos hzero]
    refine ⟨?_, iff_of_true rfl (by omega)⟩
    show 2 * (a / b) + 0 = _
    omega
  · rw [if_neg hzero]
    cases hcmp : compare (2 * (a % b)) b with
    | lt =>
      have hlt := Nat.compare_eq_lt.mp hcmp
      refine ⟨?_, iff_of_false nofun (by omega)⟩
      show 2 * (a / b) + 0 = _
      omega
    | eq =>
      have heq := Nat.compare_eq_eq.mp hcmp
      refine ⟨?_, iff_of_true rfl (by omega)⟩
      show 2 * (a / b) + 1 = _
      omega
    | gt =>
      have hgt := Nat.compare_eq_gt.mp hcmp
      refine ⟨?_, iff_of_false nofun (by omega)⟩
      show 2 * (a / b) + 1 = _
      omega

section

variable {em : ExtendedMantissa} {a b : ℕ}

theorem Represents.roundedMantissa (h : Represents em a b) (hb : 0 < b) :
    em.roundedMantissa = (⟨a, b, hb⟩ : Quotient).round := by
  obtain ⟨hhalves, hexact⟩ := h
  obtain ⟨m, round, sticky⟩ := em
  have hcases := two_mul_div a hb
  have hlt := Nat.mod_lt a hb
  rw [Quotient.round]
  cases round <;> cases sticky <;>
    simp only [ExtendedMantissa.roundedMantissa, ExtendedMantissa.accuracy,
      Accuracy.roundToNearestEven, Bool.toNat_true, Bool.toNat_false, Bool.true_eq_false,
      true_iff, false_iff] at hhalves hexact ⊢ <;>
    split_ifs <;> omega

theorem Represents.mantissa_eq (h : Represents em a b) (hb : 0 < b) : em.mantissa = a / b := by
  have hhalves := h.halves
  have hbit := Bool.toNat_le em.roundBit
  have hcases := two_mul_div a hb
  omega

end

/-! ### Rounding -/

theorem represents_shiftToTargetExponent {accuracy : Accuracy} {a b : ℕ} (hb : 0 < b)
    (h : Represents (.ofMantissaAndAccuracy m accuracy) a b) {em : ExtendedMantissa} {e' : ℤ}
    (hshift : shiftToTargetExponent Format.binary64 m e accuracy = (em, e')) :
    ∃ shift : ℕ, e' = e + shift ∧ Represents em a (b * 2 ^ shift) := by
  obtain ⟨rfl, rfl⟩ := Prod.mk.inj hshift
  exact ⟨_, rfl, h.shiftRight hb _⟩

/-- A mantissa that has got a bit more by rounding is a power of two. -/
theorem roundedMantissa_of_carry {em : ExtendedMantissa} (hlog : em.mantissa.log2 = 52)
    (hmore : em.roundedMantissa.log2 = 53) : em.roundedMantissa = 2 ^ 53 := by
  have hlt : em.mantissa < 2 ^ 53 := by
    have := Nat.lt_log2_self (n := em.mantissa)
    rwa [hlog] at this
  have hle : 2 ^ 53 ≤ em.roundedMantissa := by
    refine (Nat.le_log2 fun hzero => ?_).mp hmore.ge
    rw [hzero] at hmore
    cases hmore
  have := (roundedMantissa_bounds em).2
  omega

/-- No bit is lost where a rounded mantissa is shifted once more. -/
theorem carried_mantissa {em em' : ExtendedMantissa} {e' : ℤ} (hlog : em.mantissa.log2 = 52)
    (hlow : -1074 ≤ e)
    (h : shiftToTargetExponent Format.binary64 em.roundedMantissa e .exact = (em', e')) :
    em'.mantissa.log2 = 52 ∧ -1074 ≤ e' ∧
      (em'.mantissa : ℚ) * 2 ^ e' = em.roundedMantissa * 2 ^ e := by
  obtain ⟨he, hem⟩ := shiftToTargetExponent_eq h
  have hcarry := log2_roundedMantissa em
  refine ⟨by omega, by omega, ?_⟩
  obtain ⟨shift, hshift, hrepresents⟩ :=
    represents_shiftToTargetExponent Nat.one_pos (represents_whole _) h
  have hmantissa := hrepresents.mantissa_eq (by positivity)
  have hwhole : em.roundedMantissa = em'.mantissa * 2 ^ shift := by
    rw [hmantissa, Nat.one_mul]
    refine (Nat.div_mul_cancel ?_).symm
    rcases hcarry.2.eq_or_lt with hmore | hsame
    · rw [roundedMantissa_of_carry hlog (by omega)]
      exact Nat.pow_dvd_pow 2 (by omega)
    · have hnone : shift = 0 := by omega
      rw [hnone]
      exact one_dvd _
  rw [hshift, hwhole, zpow_add₀ two_ne_zero, zpow_natCast]
  push_cast
  ring

/-- A float in parts that is positive and has all its bits. -/
inductive Normal : UnpackedFloat → Prop
  | finite {m : ℕ} {e : ℤ} {hm : 0 < m} (hlog : m.log2 = 52) (hlow : -1074 ≤ e) :
    Normal (.finite .positive m e hm)

instance (x : UnpackedFloat) : Decidable (Normal x) :=
  match x with
  | .finite .positive m e _ => decidable_of_iff (m.log2 = 52 ∧ -1074 ≤ e)
      ⟨fun h => .finite h.1 h.2, fun | .finite hlog hlow => ⟨hlog, hlow⟩⟩
  | .finite .negative _ _ _ => .isFalse nofun
  | .zero _ => .isFalse nofun
  | .infinity _ => .isFalse nofun
  | .notANumber => .isFalse nofun

/-- The float that is nearest to an amount, which is infinite if it is larger than floats get. -/
inductive Nearest (v : ℚ) (x : UnpackedFloat) : Prop
  | zero (hv : v = 0) (hx : x = .zero .positive)
  | normal (hv : 0 < v) (hx : Normal x) (hvalue : partsValue x = nearestFloat v)
  | infinite (hv : 0 < v) (hx : x = .infinity .positive) (hlarge : 2 ^ (1024 : ℤ) ≤ nearestFloat v)

/-- The mantissa tells the size of an amount. -/
theorem Represents.bounds {accuracy : Accuracy} {a b : ℕ} (hb : 0 < b)
    (h : Represents (.ofMantissaAndAccuracy m accuracy) a b) (hm : 0 < m) :
    (2 : ℚ) ^ (m.log2 : ℤ) ≤ a / b ∧ (a : ℚ) / b < 2 ^ ((m.log2 : ℤ) + 1) := by
  have hb' : (0 : ℚ) < b := Nat.cast_pos.mpr hb
  have hmantissa : m = a / b := by
    rw [← h.mantissa_eq hb, mantissa_ofMantissaAndAccuracy]
  constructor
  · rw [le_div_iff₀ hb', zpow_natCast]
    have hle : 2 ^ m.log2 * b ≤ a :=
      (Nat.le_div_iff_mul_le hb).mp (hmantissa ▸ Nat.log2_self_le hm.ne')
    exact_mod_cast hle
  · rw [div_lt_iff₀ hb']
    have hlt : a < 2 ^ (m.log2 + 1) * b :=
      (Nat.div_lt_iff_lt_mul hb).mp (hmantissa ▸ Nat.lt_log2_self)
    exact_mod_cast hlt

/-- What is rounded becomes the nearest float. -/
theorem nearest_roundWithAccuracy {accuracy : Accuracy} {a b : ℕ} (hb : 0 < b)
    (h : Represents (.ofMantissaAndAccuracy m accuracy) a b) (hlog : 52 ≤ m.log2)
    (hlow : -1022 ≤ m.log2 + e) :
    Nearest (a / b * 2 ^ e) (roundWithAccuracy Format.binary64 .positive m e accuracy) := by
  have hm : 0 < m := Nat.pos_of_ne_zero fun hzero => by
    rw [hzero, Nat.log2_zero] at hlog
    omega
  obtain ⟨hbelow, habove⟩ := h.bounds hb hm
  have hpow : (0 : ℚ) < 2 ^ e := zpow_pos two_pos e
  have hv : (0 : ℚ) < a / b * 2 ^ e := mul_pos ((zpow_pos two_pos _).trans_le hbelow) hpow
  have hsize : Int.log 2 ((a : ℚ) / b * 2 ^ e) = m.log2 + e := by
    refine log_eq_of_bounds ?_ ?_
    · rw [zpow_add₀ two_ne_zero]
      gcongr
    · rw [add_right_comm, zpow_add₀ two_ne_zero _ e]
      gcongr
  rw [roundWithAccuracy]
  cases hfirst : shiftToTargetExponent Format.binary64 m e accuracy with
  | mk em e₁ =>
    cases hlast : shiftToTargetExponent Format.binary64 em.roundedMantissa e₁ .exact with
    | mk em' e₂ =>
      obtain ⟨he, hem⟩ := shiftToTargetExponent_eq hfirst
      obtain ⟨hfull, hlow', hvalue⟩ := carried_mantissa (by omega) (by omega) hlast
      obtain ⟨shift, hshift, hrepresents⟩ := represents_shiftToTargetExponent hb h hfirst
      have hpos : 0 < b * 2 ^ shift := Nat.mul_pos hb (Nat.two_pow_pos shift)
      have hne : em'.mantissa ≠ 0 := fun hzero => by
        rw [hzero, Nat.log2_zero] at hfull
        cases hfull
      have hbit : lastBit ((a : ℚ) / b * 2 ^ e) = e₁ := by
        rw [lastBit, hsize]
        omega
      have hscaled : (a : ℚ) / b * 2 ^ e / 2 ^ e₁ = (⟨a, b * 2 ^ shift, hpos⟩ : Quotient).value := by
        rw [Quotient.value, hshift, zpow_add₀ two_ne_zero, zpow_natCast]
        push_cast
        field_simp
      simp only [hlast]
      rw [dif_neg hne]
      refine .normal hv (.finite hfull hlow') ?_
      rw [partsValue, hvalue, nearestFloat, nearestMultiple, hbit, hscaled, ← Quotient.round_eq,
        hrepresents.roundedMantissa hpos]

end MinerFleet.Decimal
