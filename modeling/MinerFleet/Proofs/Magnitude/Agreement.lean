/-
What is read from amounts that are shown.

* `Says.exists_parse?` — the text of an amount is read as a float, which is rounded twice;
* `parse?_formatExact_mono`, `abs_parse?_formatExact_sub_le` — these floats are in order, and close;
* `format_eq_formatExact` — floats are written as the exact amounts that they are;
* `format_and_read_agree` — an amount that is shown is read with a small error, and in order.

The number in front of the unit is rounded to a float, and once more its product with the unit
(`Nearest`). The two roundings change the amount by much less than what is lost where it is shown.
They keep the order of amounts in one unit, and between two units there is a thousand of the smaller
one, which is a float as one is (`Says.mul_le_mul`). What is read is finite, as this is so for two
more of the largest unit than floats get to (`mostUnits`).

The writer of floats divides before it rounds. Where the quotient is exact, it finds the same units,
places and digits as the one of exact amounts, as these depend on values only (`formatIn_congr`).
-/
import MinerFleet.Proofs.Decimal.Operations
import MinerFleet.Proofs.Magnitude.Display
import MinerFleet.Proofs.Magnitude.Overflow

namespace MinerFleet

open Decimal

/-! ### Numbers as floats -/

/-- Ten digits are more than 33 bits. -/
theorem Decimal.digitCount_le {n k : ℕ} (hk : 0 < k) (h : n.log2 < 33 * k) :
    digitCount n ≤ 10 * k := by
  refine (Nat.length_toDigits_le_iff (by decide) (by omega)).mpr ?_
  calc n < 2 ^ (n.log2 + 1) := Nat.lt_log2_self
    _ ≤ 2 ^ (33 * k) := Nat.pow_le_pow_right two_pos h
    _ = (2 ^ 33) ^ k := Nat.pow_mul ..
    _ ≤ (10 ^ 10) ^ k := Nat.pow_le_pow_left (by decide) k
    _ = 10 ^ (10 * k) := (Nat.pow_mul ..).symm

/-- A number with few digits becomes the nearest float. -/
theorem Decimal.Numeral.nearest_toFloat {digits k : ℕ} (hk : k ≤ 6)
    (h : digits ≤ 10 ^ 6 ∨ k = 0 ∧ digits.log2 < 966) :
    Nearest (⟨false, digits, -(k : ℤ)⟩ : Numeral).value
      (⟨false, digits, -(k : ℤ)⟩ : Numeral).toFloat.toModel.unpack := by
  have hmillion : (10 ^ 6).log2 = 19 := by decide
  have hlog : digits.log2 < 966 := h.elim
    (fun h => Nat.lt_of_le_of_lt (log2_mono h) (hmillion ▸ by decide)) And.right
  rw [toFloat, Magnitude.value_mk]
  by_cases hzero : digits = 0
  · simp only [hzero, if_true, Bool.false_eq_true, if_false]
    refine .zero ?_ rfl
    rw [Nat.cast_zero, zero_div]
  · have hpos := Nat.pos_of_ne_zero hzero
    have hcount := digitCount_le (n := digits) (k := 31) (by decide) (by omega)
    simp only [hzero, if_false, Bool.false_eq_true]
    rw [if_neg (by omega), if_neg (by omega)]
    cases k with
    | zero =>
      rw [pow_zero, div_one]
      exact nearest_ofScientific_whole hpos
    | succ k =>
      have hsmall := h.resolve_right fun h => Nat.succ_ne_zero k h.1
      exact nearest_ofScientific_places hpos (Nat.lt_of_le_of_lt hsmall (by decide)) (by omega)

/-- A float that is rounded is multiplied by a unit. -/
theorem Decimal.Nearest.mul_factor {x : Float} {v : ℚ} (h : Nearest v x.toModel.unpack)
    (hx : x.isFinite = true) (scale : Scale) :
    Nearest (nearestFloat v * 10 ^ scale.power) (x * scale.factor).toModel.unpack := by
  have hnormal : Normal scale.factor.toModel.unpack := by
    cases scale <;> decide +kernel
  have hunit : partsValue scale.factor.toModel.unpack = 10 ^ scale.power :=
    (value_sizeOf _).symm.trans scale.value_factor
  have hproduct := h.mul hx hnormal (hunit ▸ one_le_pow₀ (by norm_num))
  rw [hunit] at hproduct
  exact hproduct.unpack_pack

/-- Larger units are a thousand times larger at least. -/
theorem Scale.of_power_lt {scale scale' : Scale} (h : scale.power < scale'.power) :
    scale ≠ .exa ∧ scale' ≠ .one ∧ (1000 : ℚ) * 10 ^ scale.power ≤ 10 ^ scale'.power := by
  have hthree : scale ≠ .exa ∧ scale' ≠ .one ∧ scale.power + 3 ≤ scale'.power := by
    cases scale <;> cases scale' <;> revert h <;> decide
  refine ⟨hthree.1, hthree.2.1, ?_⟩
  calc (1000 : ℚ) * 10 ^ scale.power = 10 ^ (scale.power + 3) := by ring
    _ ≤ 10 ^ scale'.power := pow_le_pow_right₀ (by norm_num) hthree.2.2

namespace Magnitude

/-! ### Texts as floats -/

/-- As many of the largest unit as floats get to, and two more. -/
def mostUnits : ℕ :=
  (2 ^ 53 - 1) * 2 ^ 971 / 10 ^ 18 + 2

section

variable {s : String} {v : ℚ} {n : Numeral} {scale : Scale} (h : Says s v n scale)
include h

theorem Says.value_nonneg : 0 ≤ n.value := by
  rw [Numeral.value, if_neg (Bool.not_eq_true _ ▸ h.room.1)]
  positivity

theorem Says.value_le (hv : v ≤ mostUnits * 10 ^ 18) : n.value ≤ mostUnits := by
  by_cases hexa : scale = .exa
  · refine le_of_mul_le_mul_right ?_ (by positivity : (0 : ℚ) < 10 ^ 18)
    have hvalue := h.value
    rw [hexa] at hvalue
    exact hvalue.trans_le hv
  · have hthousand : 1000 ≤ mostUnits := by decide +kernel
    exact (h.short hexa).le.trans (by exact_mod_cast hthousand)

/-- The number in front of a unit becomes the nearest float, and is no infinity. -/
theorem Says.nearest_toFloat (hv : v ≤ mostUnits * 10 ^ 18) :
    n.toFloat.isFinite = true ∧ Nearest n.value n.toFloat.toModel.unpack := by
  have hle := h.value_le hv
  have hnumber : Nearest n.value n.toFloat.toModel.unpack := by
    obtain ⟨hpositive, k, hk, hexponent, hdigits⟩ := h.room
    obtain ⟨negative, digits, exponent⟩ := n
    dsimp only at hpositive hexponent hdigits
    subst hpositive hexponent
    refine Numeral.nearest_toFloat hk (hdigits.imp_right fun hlarge => ⟨hlarge.1, ?_⟩)
    have hbits : mostUnits.log2 < 966 := by decide +kernel
    rw [hlarge.1, value_mk, pow_zero, div_one, Nat.cast_le] at hle
    exact (log2_mono hle).trans_lt hbits
  have hbound : mostUnits ≤ 2 ^ 1023 := by decide +kernel
  refine ⟨hnumber.isFinite_of_le h.value_nonneg (hle.trans ?_), hnumber⟩
  exact_mod_cast hbound

/-- The text of an amount is read as a float: the number in front of the unit is rounded, and once
more its product with the unit. -/
theorem Says.exists_parse? (hv : v ≤ mostUnits * 10 ^ 18) :
    ∃ x, parse? s = some x ∧
      Nearest (nearestFloat n.value * 10 ^ scale.power) x.toModel.unpack := by
  obtain ⟨hfinite, hnumber⟩ := h.nearest_toFloat hv
  refine ⟨n.toFloat * scale.factor, ?_, ?_⟩
  · rw [parse?, h.read]
    exact if_pos hfinite
  · exact hnumber.mul_factor hfinite scale

theorem Says.nearestFloat_le (hexa : scale ≠ .exa) : nearestFloat n.value ≤ 1000 := by
  have hbits := nearestFloat_of_bits (m := 1000) (by decide) (by decide) 0
  rw [zpow_zero, mul_one, Nat.cast_ofNat] at hbits
  exact (nearestFloat_mono h.value_nonneg (h.short hexa).le).trans_eq hbits

/-- Floats get as large as what is read where an amount is shown. -/
theorem Says.nearestFloat_lt (hv : v ≤ mostUnits * 10 ^ 18) :
    nearestFloat (nearestFloat n.value * 10 ^ scale.power) < 2 ^ (1024 : ℤ) := by
  have hpos : 0 < mostUnits := by decide +kernel
  have hmost := (nearest_ofScientific_whole hpos).mul_factor (by decide +kernel) .exa
  have hfinite : (Float.ofScientific mostUnits false 0 * Scale.exa.factor).isFinite = true := by
    decide +kernel
  have hle : nearestFloat n.value * 10 ^ scale.power ≤
      nearestFloat mostUnits * 10 ^ Scale.exa.power := by
    by_cases hexa : scale = .exa
    · have := nearestFloat_mono h.value_nonneg (h.value_le hv)
      rw [hexa]
      gcongr
    · have hsmaller : scale.power < Scale.exa.power := by
        revert hexa
        cases scale <;> decide
      have hthousand := h.nearestFloat_le hexa
      calc nearestFloat n.value * 10 ^ scale.power ≤ 1000 * 10 ^ scale.power := by gcongr
        _ ≤ 10 ^ Scale.exa.power := (Scale.of_power_lt hsmaller).2.2
        _ ≤ nearestFloat mostUnits * 10 ^ Scale.exa.power :=
          le_mul_of_one_le_left (by positivity) (one_le_nearestFloat (Nat.one_le_cast.mpr hpos))
  calc nearestFloat (nearestFloat n.value * 10 ^ scale.power)
      ≤ nearestFloat (nearestFloat mostUnits * 10 ^ Scale.exa.power) :=
        nearestFloat_mono (mul_nonneg (nearestFloat_nonneg _) (by positivity)) hle
    _ = partsValue _ := (hmost.partsValue_eq hfinite).symm
    _ < 2 ^ (1024 : ℤ) := partsValue_lt _

end

/-- Larger amounts are read as larger ones, also where the number in front of the unit is rounded. -/
theorem Says.mul_le_mul {s s' : String} {v w : ℚ} {n n' : Numeral} {scale scale' : Scale}
    (hv : Says s v n scale) (hw : Says s' w n' scale') (h : v ≤ w) :
    nearestFloat n.value * 10 ^ scale.power ≤ nearestFloat n'.value * 10 ^ scale'.power := by
  have hpow (k : ℕ) : (0 : ℚ) < 10 ^ k := by positivity
  rw [← hv.value, ← hw.value] at h
  rcases Nat.lt_trichotomy scale.power scale'.power with hlt | heq | hgt
  · obtain ⟨hexa, hone, hthousand⟩ := Scale.of_power_lt hlt
    have hless := hv.nearestFloat_le hexa
    calc nearestFloat n.value * 10 ^ scale.power ≤ 1000 * 10 ^ scale.power := by gcongr
      _ ≤ 10 ^ scale'.power := hthousand
      _ ≤ nearestFloat n'.value * 10 ^ scale'.power :=
        le_mul_of_one_le_left (hpow _).le (one_le_nearestFloat (hw.least hone))
  · rw [heq] at h ⊢
    have hle : n.value ≤ n'.value := le_of_mul_le_mul_right h (hpow _)
    have := nearestFloat_mono hv.value_nonneg hle
    gcongr
  · -- A smaller unit says less.
    obtain ⟨hexa, hone, hthousand⟩ := Scale.of_power_lt hgt
    refine absurd h (not_le_of_gt ?_)
    calc n'.value * 10 ^ scale'.power < 1000 * 10 ^ scale'.power :=
          mul_lt_mul_of_pos_right (hw.short hexa) (hpow _)
      _ ≤ 10 ^ scale.power := hthousand
      _ ≤ n.value * 10 ^ scale.power := le_mul_of_one_le_left (hpow _).le (hv.least hone)

/-- Rounding changes hardly anything of what an amount says. -/
theorem Says.abs_sub_le {s : String} {v : ℚ} {n : Numeral} {scale : Scale} (h : Says s v n scale)
    (hn : 1 ≤ n.value) :
    |nearestFloat (nearestFloat n.value * 10 ^ scale.power) - v| ≤ v / 2 ^ 50 := by
  have hten : (0 : ℚ) < 10 ^ scale.power := by positivity
  have hnumber := abs_nearestFloat_sub_le (by linarith : 0 < n.value)
  have hread : |nearestFloat n.value * 10 ^ scale.power - v| ≤ v / 2 ^ 53 := by
    rw [← h.value, ← sub_mul, abs_mul, abs_of_pos hten, mul_div_right_comm]
    gcongr
  have hpos : 0 < nearestFloat n.value * 10 ^ scale.power := by
    have := one_le_nearestFloat hn
    positivity
  have hproduct := abs_nearestFloat_sub_le hpos
  generalize nearestFloat n.value * 10 ^ scale.power = product at hread hproduct ⊢
  rw [abs_le] at hread hproduct ⊢
  constructor <;> linarith

/-! ### Scaled amounts -/

/-- The digits of an amount depend on its value only. -/
theorem fixed_congr {v w : Quotient} (h : v.value = w.value) (n : ℕ) : v.fixed n = w.fixed n := by
  have hround : (v.shift n).round = (w.shift n).round :=
    Quotient.round_congr (by rw [Quotient.value_shift, Quotient.value_shift, h])
  rw [Quotient.fixed, Quotient.fixed, hround]

theorem places_congr {v w : Quotient} (h : v.value = w.value) : places v = places w := by
  by_cases hwhole : ∃ n : ℕ, v.value = n
  · rw [places_of_whole hwhole, places_of_whole (h ▸ hwhole)]
  · rw [places_of_not_whole hwhole, places_of_not_whole (h ▸ hwhole), h]

/-- Scaled amounts are written as the exact ones if they are exact for the units that are almost
reached. -/
theorem formatIn_congr {scaled : Scale → Quotient} {q : Quotient} {scales : List Scale}
    (hscales : Ladder scales)
    (hexact : ∀ scale : Scale, 999 * 10 ^ scale.power ≤ 1000 * q.value →
      (scaled scale).value = q.value / 10 ^ scale.power)
    (hhead : ∀ scale ∈ scales.head?, 999 * 10 ^ scale.power ≤ 1000 * q.value) :
    formatIn scaled scales = formatIn (inUnit q) scales := by
  induction scales with
  | nil => rfl
  | cons scale larger ih =>
    have hvalue : (scaled scale).value = (inUnit q scale).value :=
      (hexact scale (hhead scale rfl)).trans (value_in_unit q scale.power).symm
    have hround : ((scaled scale).shift (places (scaled scale))).round = digitsIn q scale := by
      rw [digitsIn, places_congr hvalue]
      exact Quotient.round_congr (by rw [Quotient.value_shift, Quotient.value_shift, hvalue])
    rw [formatIn_cons, formatIn, hround, fixed_congr hvalue, places_congr hvalue]
    cases larger with
    | nil => rfl
    | cons next more =>
      by_cases hthousand : 1000 * 10 ^ places (inUnit q scale) ≤ digitsIn q scale
      · have hnext := (List.isChain_cons_cons.mp hscales.chain).1
        rw [if_pos ⟨List.cons_ne_nil _ _, hthousand⟩, if_pos ⟨List.cons_ne_nil _ _, hthousand⟩]
        refine ih hscales.tail fun scale hscale => ?_
        rw [← Option.some.inj hscale, hnext]
        exact almost_next hthousand
      · rw [if_neg fun h => hthousand h.2, if_neg fun h => hthousand h.2]

/-! ### Floats as texts -/

/-- The quotients of a float by the units that it almost reaches are exact. -/
def ScalesExactly (x : Float) : Prop :=
  ∀ scale : Scale, 999 * 10 ^ scale.power ≤ 1000 * (sizeOf x).value →
    (sizeOf (x / scale.factor)).value = (sizeOf x).value / 10 ^ scale.power

theorem scalesExactly_iff (x : Float) : ScalesExactly x ↔ ∀ scale ∈ Scale.all,
    999 * 10 ^ scale.power * ((sizeOf x).shift 3).den ≤ ((sizeOf x).shift 3).num →
      (sizeOf (x / scale.factor)).num * (inUnit (sizeOf x) scale).den =
        (inUnit (sizeOf x) scale).num * (sizeOf (x / scale.factor)).den := by
  have hall (scale : Scale) : scale ∈ Scale.all := by cases scale <;> decide
  have hreached (scale : Scale) : 999 * (10 : ℚ) ^ scale.power ≤ 1000 * (sizeOf x).value ↔
      999 * 10 ^ scale.power * ((sizeOf x).shift 3).den ≤ ((sizeOf x).shift 3).num := by
    have hthousand : 1000 * (sizeOf x).value = ((sizeOf x).shift 3).value := by
      rw [Quotient.value_shift]
      norm_num [mul_comm]
    rw [← Quotient.le_value_iff, ← hthousand]
    push_cast
    rfl
  simp only [ScalesExactly, hall, forall_const, hreached, ← value_in_unit, Quotient.value_eq_iff]

instance : DecidablePred ScalesExactly := fun x =>
  decidable_of_iff _ (scalesExactly_iff x).symm

/-- A positive float that is finite has the parts of a number. -/
theorem finite_of_pos {x : Float} (hx : x.isFinite = true) (hpos : 0 < x) :
    ∃ m e hm, x.toModel.unpack = .finite .positive m e hm := by
  have hx : x.toModel.unpack.isFinite = true := hx
  have hlt := lt_iff_unpack.mp hpos
  rw [unpack_zero] at hlt
  cases hu : x.toModel.unpack with
  | infinity sign =>
    rw [hu] at hx
    cases hx
  | notANumber =>
    rw [hu] at hx
    cases hx
  | zero sign =>
    rw [hu] at hlt
    cases hlt
  | finite sign m e hm =>
    rw [hu] at hlt
    cases sign with
    | negative => cases hlt
    | positive => exact ⟨m, e, hm, rfl⟩

/-- A float is written as the exact amount that it is, where its quotients by units are exact. -/
theorem format_eq_formatExact {x : Float} (hx : x.isFinite = true) (hpos : 0 < x)
    (h : ScalesExactly x) : format x = formatExact (sizeOf x) := by
  obtain ⟨m, e, hm, hu⟩ := finite_of_pos hx hpos
  have hle : ¬x ≤ 0 := fun hle => by
    rw [le_iff_unpack, hu, unpack_zero] at hle
    cases hle
  have hvalue : (sizeOf x).value = m * 2 ^ e := by rw [value_sizeOf, hu, partsValue]
  have hnum : (sizeOf x).num ≠ 0 := Quotient.value_pos_iff.mp (by rw [hvalue]; positivity)
  rw [format, formatExact, if_neg hnum, hx, Bool.not_true, Bool.false_or, decide_eq_false hle,
    if_neg Bool.false_ne_true, formatWith, formatWith]
  split
  · rfl
  · rename_i hone
    obtain ⟨scale, larger, heq, hladder, hlow, -⟩ :=
      scalesFrom_all (not_lt.mp (mt Quotient.value_lt_one_iff.mp hone))
    rw [heq]
    refine formatIn_congr hladder h fun first hfirst => ?_
    have hpow : (0 : ℚ) < 10 ^ scale.power := by positivity
    rw [← Option.some.inj hfirst]
    linarith

/-! ### There and back -/

/-- An amount that is no larger than floats get. -/
def WithinFloats (q : Quotient) : Prop :=
  ∃ x : Float, q.value ≤ (sizeOf x).value

theorem roundedTo_step_le {q : Quotient} (h : WithinFloats q) :
    q.roundedTo (step q.value) ≤ mostUnits * 10 ^ 18 := by
  obtain ⟨x, hx⟩ := h
  have hq : q.value ≤ ((2 ^ 53 - 1) * 2 ^ 971 : ℕ) := by
    refine hx.trans ((value_sizeOf x).trans_le ?_)
    exact_mod_cast partsValue_le x
  have hstep : (10 : ℚ) ^ step q.value ≤ 10 ^ 18 := by
    refine (zpow_le_zpow_right₀ (by norm_num) ?_).trans_eq (zpow_natCast 10 18)
    rw [step]
    split_ifs <;> omega
  have herror := (abs_le.mp (q.abs_roundedTo_sub_le (step q.value))).2
  rw [mostUnits]
  generalize (2 ^ 53 - 1) * 2 ^ 971 = limit at hq ⊢
  have hunits : (limit : ℚ) ≤ (limit / 10 ^ 18 + 1 : ℕ) * 10 ^ 18 := by
    exact_mod_cast (Nat.lt_mul_of_div_lt (Nat.lt_succ_self _) (by decide)).le
  push_cast at hunits ⊢
  linarith

/-- The float that is read where an amount is shown. -/
theorem exists_parse?_formatExact {q : Quotient} (h : WithinFloats q) :
    ∃ n scale x, Says (formatExact q) (q.roundedTo (step q.value)) n scale ∧
      (1 ≤ q.value → 1 ≤ n.value) ∧ parse? (formatExact q) = some x ∧ x.isFinite = true ∧
      Nearest (nearestFloat n.value * 10 ^ scale.power) x.toModel.unpack := by
  obtain ⟨n, scale, hshown, hone⟩ := says_formatExact q
  have hle := roundedTo_step_le h
  obtain ⟨x, hx, hnearest⟩ := hshown.exists_parse? hle
  have hfinite : x.isFinite = true := hnearest.isFinite (hshown.nearestFloat_lt hle)
  exact ⟨n, scale, x, hshown, hone, hx, hfinite, hnearest⟩

/-- Larger amounts are read as larger floats. -/
theorem parse?_formatExact_mono {v w : Quotient} (h : v.value ≤ w.value) (hw : WithinFloats w) :
    ∃ x y, parse? (formatExact v) = some x ∧ parse? (formatExact w) = some y ∧ x ≤ y := by
  have hv : WithinFloats v := hw.imp fun _ => h.trans
  obtain ⟨n, scale, x, hshown, -, hx, -, hnearest⟩ := exists_parse?_formatExact hv
  obtain ⟨n', scale', y, hshown', -, hy, -, hnearest'⟩ := exists_parse?_formatExact hw
  exact ⟨x, y, hx, hy, hnearest.le hnearest' (hshown.mul_le_mul hshown' (roundedTo_step_mono h))⟩

/-- An amount is read as a float with an error of half a percent at most. -/
theorem abs_parse?_formatExact_sub_le {q : Quotient} (hq : 1 ≤ q.value) (h : WithinFloats q) :
    ∃ x, parse? (formatExact q) = some x ∧ x.isFinite = true ∧ 0 < x ∧
      |(sizeOf x).value - q.value| ≤ q.value / 200 := by
  obtain ⟨n, scale, x, hshown, hone, hx, hfinite, hnearest⟩ := exists_parse?_formatExact h
  have hpos : 0 < nearestFloat n.value * 10 ^ scale.power := by
    have := one_le_nearestFloat (hone hq)
    positivity
  refine ⟨x, hx, hfinite, ?_, ?_⟩
  · rw [lt_iff_unpack, unpack_zero]
    exact (hnearest.normal_of_pos hpos hfinite).zero_lt
  · have hread := hshown.abs_sub_le (hone hq)
    have herror := abs_roundedTo_step_sub_le hq
    rw [value_sizeOf, hnearest.partsValue_eq hfinite]
    generalize nearestFloat _ = value at hread ⊢
    generalize q.roundedTo _ = shown at hread herror
    rw [abs_le] at hread herror ⊢
    constructor <;> linarith

/-- Amounts are read as they are shown.

* An amount from one on is read with an error of half a percent at most. It is shown with one to
  three digits before the point, or with more in the largest unit.
* A larger amount is not read as a smaller one, in whatever units and places they are shown.
* Both hold of what the text says exactly, and of the float that it is read as if floats get as large
  as the amount.
* A float is written as the exact amount that it is, where its quotients by units are exact. -/
theorem format_and_read_agree :
    (∀ q : Quotient, 1 ≤ q.value → ∃ n scale, read? (formatExact q) = some (n, scale) ∧
      |n.value * 10 ^ scale.power - q.value| ≤ q.value / 200 ∧
      1 ≤ n.value ∧ (scale ≠ .exa → n.value < 1000)) ∧
    (∀ q : Quotient, 1 ≤ q.value → WithinFloats q → ∃ x, parse? (formatExact q) = some x ∧
      x.isFinite = true ∧ 0 < x ∧ |(sizeOf x).value - q.value| ≤ q.value / 200) ∧
    (∀ v w : Quotient, v.value ≤ w.value → ∃ n scale n' scale',
      read? (formatExact v) = some (n, scale) ∧ read? (formatExact w) = some (n', scale') ∧
      n.value * 10 ^ scale.power ≤ n'.value * 10 ^ scale'.power) ∧
    (∀ v w : Quotient, v.value ≤ w.value → WithinFloats w → ∃ x y,
      parse? (formatExact v) = some x ∧ parse? (formatExact w) = some y ∧ x ≤ y) ∧
    ∀ x : Float, x.isFinite = true → 0 < x → ScalesExactly x →
      format x = formatExact (sizeOf x) := by
  refine ⟨fun q hq => ?_, fun q => abs_parse?_formatExact_sub_le, fun v w h => ?_,
    fun v w h hw => ?_, fun x => format_eq_formatExact⟩
  · obtain ⟨n, scale, hshown, hone⟩ := says_formatExact q
    refine ⟨n, scale, hshown.read, ?_, hone hq, hshown.short⟩
    rw [hshown.value]
    exact (abs_roundedTo_step_sub_le hq).trans (by linarith)
  · obtain ⟨n, scale, hv, -⟩ := says_formatExact v
    obtain ⟨n', scale', hw, -⟩ := says_formatExact w
    refine ⟨n, scale, n', scale', hv.read, hw.read, ?_⟩
    rw [hv.value, hw.value]
    exact roundedTo_step_mono h
  · exact parse?_formatExact_mono h hw

/-- Rounding may lead to the next unit. -/
theorem thousand_of_a_unit_is_read :
    formatExact (.ofNat 999400) = "999K" ∧ formatExact (.ofNat 999600) = "1.00M" ∧
      format 1500000 = "1.50M" ∧
      (∃ x, parse? "1.00M" = some x ∧ x.isFinite = true ∧ 0 < x ∧
        |(sizeOf x).value - 999600| ≤ 999600 / 200) ∧
      ∃ x y, parse? "999K" = some x ∧ parse? "1.00M" = some y ∧ x ≤ y := by
  have hless : (Quotient.ofNat 999400).value = 999400 := Quotient.value_ofNat 999400
  have hmore : (Quotient.ofNat 999600).value = 999600 := Quotient.value_ofNat 999600
  have htext : formatExact (.ofNat 999400) = "999K" := by decide
  have htext' : formatExact (.ofNat 999600) = "1.00M" := by decide
  have hwithin : WithinFloats (.ofNat 999600) := by
    refine ⟨999600, le_of_eq ?_⟩
    have hsize : (sizeOf 999600).value = (999600 : ℕ) :=
      Quotient.value_eq_natCast_iff.mpr (by decide +kernel)
    rw [hsize, Quotient.value_ofNat]
  obtain ⟨-, herror, -, hmono, hwritten⟩ := format_and_read_agree
  have hread := herror (.ofNat 999600) (by rw [hmore]; norm_num) hwithin
  have horder := hmono (.ofNat 999400) (.ofNat 999600) (by rw [hless, hmore]; norm_num) hwithin
  have hfloat : format 1500000 = formatExact (sizeOf 1500000) :=
    hwritten 1500000 (by decide +kernel) (by decide +kernel) (by decide +kernel)
  rw [htext', hmore] at hread
  rw [htext, htext'] at horder
  exact ⟨htext, htext', hfloat.trans (by decide +kernel), hread, horder⟩

end Magnitude

end MinerFleet
