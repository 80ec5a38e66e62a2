/-
The amounts that floats are, and how large they get.

* `Quotient.value` — an exact amount as a rational number;
* `value_sizeOf` — the amount that a float is, by its parts;
* `overflow` — the least amount that is rounded to no finite float;
* `isFinite_mul_iff` — a product of finite floats is finite if the exact product is below that.

Between the largest float and `overflow` an amount is rounded down, and from there on rounding
carries into a bit that no float has. This is a matter of one bit behind the mantissa: the amount
has to have 53 ones in front, and another one behind them (`carries_iff`). A mantissa that is cut
off knows this bit (`Represents`), however far it is shifted.
-/
import MinerFleet.Proofs.Decimal.Finite
import MinerFleet.Magnitude.Basic

namespace MinerFleet.Decimal

open Float.Model Float.Model.UnpackedFloat

/-! ### Amounts -/

/-- An exact amount as a rational number. -/
def Quotient.value (q : Quotient) : ℚ :=
  q.num / q.den

theorem Binary.value_size (b : Binary) : b.size.value = b.mantissa * 2 ^ b.exponent := by
  obtain ⟨negative, m, e⟩ := b
  cases e with
  | ofNat n =>
    show ((m * 2 ^ n : ℕ) : ℚ) / (1 : ℕ) = m * 2 ^ (n : ℤ)
    push_cast
    rw [div_one, zpow_natCast]
  | negSucc n =>
    show (m : ℚ) / (2 ^ (n + 1) : ℕ) = m * 2 ^ Int.negSucc n
    rw [zpow_negSucc, div_eq_mul_inv]
    push_cast
    rfl

/-- The amount that a float in parts is, without its sign. -/
def partsValue : UnpackedFloat → ℚ
  | .finite _ m e _ => m * 2 ^ e
  | .zero _ => 0
  | .infinity _ => 0
  | .notANumber => 0

theorem toNat_unpackMantissa (b : BitVec Format.binary64.numBits) :
    (unpackMantissa b).toNat = b.toNat % 2 ^ 52 := by
  rw [unpackMantissa, BitVec.toNat_cast, BitVec.extractLsb_toNat, Nat.shiftRight_zero]
  rfl

theorem toNat_unpackExponent (b : BitVec Format.binary64.numBits) :
    (unpackExponent b).toNat = b.toNat / 2 ^ 52 % 2048 := by
  rw [unpackExponent, BitVec.toNat_cast, BitVec.extractLsb_toNat, Nat.shiftRight_eq_div_pow]
  rfl

theorem partsValue_unpack (b : BitVec Format.binary64.numBits) :
    partsValue (UnpackedFloat.unpack Format.binary64 b) =
      if (unpackExponent b).toNat = 2047 then 0
      else if (unpackExponent b).toNat = 0 then ((unpackMantissa b).toNat : ℚ) * 2 ^ (-1074 : ℤ)
      else ((2 ^ 52 + (unpackMantissa b).toNat : ℕ) : ℚ) *
        2 ^ (((unpackExponent b).toNat : ℤ) - 1075) := by
  have hones : unpackExponent b = -1#11 ↔ (unpackExponent b).toNat = 2047 :=
    BitVec.toNat_inj.symm
  have hnone : unpackExponent b = 0#11 ↔ (unpackExponent b).toNat = 0 :=
    BitVec.toNat_inj.symm
  simp only [UnpackedFloat.unpack, exponentBias_eq, ← hones, ← hnone]
  split
  · split <;> rfl
  · split
    · rename_i hsubnormal
      split
      · rename_i hzero
        have hnat : (unpackMantissa b).toNat = 0 := congrArg BitVec.toNat hzero
        rw [hnat, Nat.cast_zero, zero_mul]
        rfl
      · rw [partsValue, hsubnormal]
        rfl
    · rw [partsValue, toNat_append_one]
      rfl

/-- The amount that is read off the bits of a float is that of its parts. -/
theorem value_sizeOf (x : Float) :
    (Magnitude.sizeOf x).value = partsValue x.toModel.unpack := by
  refine Eq.trans ?_ (partsValue_unpack x.toModel.toBits.toBitVec).symm
  rw [toNat_unpackMantissa, toNat_unpackExponent, Magnitude.sizeOf]
  by_cases hspecial : x.toBits.toNat / 2 ^ 52 % 2048 = 2047
  · have hparts : Binary.ofFloat? x = none := if_pos hspecial
    rw [hparts]
    exact (zero_div _).trans (if_pos hspecial).symm
  · by_cases hsubnormal : x.toBits.toNat / 2 ^ 52 % 2048 = 0
    · have hparts : Binary.ofFloat? x = some _ := (if_neg hspecial).trans (if_pos hsubnormal)
      rw [hparts]
      exact (Binary.value_size _).trans ((if_neg hspecial).trans (if_pos hsubnormal)).symm
    · have hparts : Binary.ofFloat? x = some _ := (if_neg hspecial).trans (if_neg hsubnormal)
      rw [hparts]
      exact (Binary.value_size _).trans ((if_neg hspecial).trans (if_neg hsubnormal)).symm

/-! ### Overflow -/

/-- The least amount that is rounded to no finite float: `2 ^ 1024 - 2 ^ 970`, half a step above
the largest one. -/
def overflow : ℚ :=
  (2 ^ 54 - 1) * 2 ^ (970 : ℤ)

section

variable {m : Nat} {e : Int}

theorem lt_pow_log (m : Nat) (e : Int) : (m : ℚ) * 2 ^ e < 2 ^ ((m.log2 : ℤ) + 1 + e) := by
  have hm : (m : ℚ) < 2 ^ ((m.log2 : ℤ) + 1) := by
    exact_mod_cast (Nat.lt_log2_self : m < 2 ^ (m.log2 + 1))
  rw [zpow_add₀ two_ne_zero]
  gcongr

theorem lt_overflow_of_log (h : m.log2 + e ≤ 1022) : (m : ℚ) * 2 ^ e < overflow := by
  calc (m : ℚ) * 2 ^ e < 2 ^ ((m.log2 : ℤ) + 1 + e) := lt_pow_log m e
    _ ≤ 2 ^ (53 + 970 : ℤ) := zpow_le_zpow_right₀ one_le_two (by omega)
    _ = 2 ^ (53 : ℤ) * 2 ^ (970 : ℤ) := zpow_add₀ two_ne_zero _ _
    _ ≤ overflow := by
      rw [overflow]
      gcongr
      norm_num

theorem overflow_le_of_log (hm : 0 < m) (h : 1024 ≤ m.log2 + e) : overflow ≤ (m : ℚ) * 2 ^ e := by
  have hm : (2 : ℚ) ^ (m.log2 : ℤ) ≤ m := by
    exact_mod_cast Nat.log2_self_le (Nat.ne_of_gt hm)
  calc overflow ≤ 2 ^ (54 : ℤ) * 2 ^ (970 : ℤ) := by
        rw [overflow]
        gcongr
        norm_num
    _ = 2 ^ (54 + 970 : ℤ) := (zpow_add₀ two_ne_zero _ _).symm
    _ ≤ 2 ^ ((m.log2 : ℤ) + e) := zpow_le_zpow_right₀ one_le_two (by omega)
    _ = 2 ^ (m.log2 : ℤ) * 2 ^ e := zpow_add₀ two_ne_zero _ _
    _ ≤ m * 2 ^ e := by gcongr

/-- An amount of just the right size, by whole numbers. -/
theorem lt_overflow_iff {shift : Nat} (h : e + shift = 971) :
    (m : ℚ) * 2 ^ e < overflow ↔ 2 * m < (2 ^ 54 - 1) * 2 ^ shift := by
  have hpos : (0 : ℚ) < 2 ^ (e - 1) := zpow_pos two_pos _
  have hsize : (m : ℚ) * 2 ^ e = (2 * m : ℕ) * 2 ^ (e - 1) := by
    rw [zpow_sub_one₀ two_ne_zero]
    push_cast
    ring
  have hlimit : overflow = ((2 ^ 54 - 1) * 2 ^ shift : ℕ) * 2 ^ (e - 1) := by
    have hexp : (970 : ℤ) = shift + (e - 1) := by omega
    rw [overflow, hexp, zpow_add₀ two_ne_zero, zpow_natCast]
    push_cast
    ring
  rw [hsize, hlimit, mul_lt_mul_iff_left₀ hpos, Nat.cast_lt]

/-! ### Rounding -/

/-- What a mantissa and its two bits know of an amount `a / b`: how many halves fit into it, and
whether anything is left. -/
structure Represents (em : ExtendedMantissa) (a b : ℕ) : Prop where
  halves : 2 * em.mantissa + em.roundBit.toNat = 2 * a / b
  exact : em.stickyBit = false ↔ 2 * a % b = 0

theorem represents_whole (m : ℕ) : Represents (.ofMantissaAndAccuracy m .exact) m 1 where
  halves := (Nat.div_one _).symm
  exact := iff_of_true rfl (Nat.mod_one _)

section

variable {em : ExtendedMantissa} {a b : ℕ}

theorem Represents.shiftRightOne (h : Represents em a b) (hb : 0 < b) :
    Represents em.shiftRightOne a (b * 2) := by
  have hbit := Bool.toNat_le em.roundBit
  have hlast : (em.mantissa % 2 != 0).toNat = em.mantissa % 2 := by
    rcases Nat.mod_two_eq_zero_or_one em.mantissa with hlast | hlast <;> rw [hlast] <;> rfl
  constructor
  · show 2 * (em.mantissa / 2) + (em.mantissa % 2 != 0).toNat = 2 * a / (b * 2)
    rw [hlast, ← Nat.div_div_eq_div_mul, ← h.halves]
    omega
  · show (em.roundBit || em.stickyBit) = false ↔ 2 * a % (b * 2) = 0
    have hround : em.roundBit = false ↔ 2 * a / b % 2 = 0 := by
      rw [← h.halves]
      cases em.roundBit <;> simp
    rw [Bool.or_eq_false_iff, h.exact, hround, Nat.mod_mul, Nat.add_eq_zero_iff, Nat.mul_eq_zero,
      or_iff_right (Nat.ne_of_gt hb), and_comm]

theorem Represents.shiftRight (h : Represents em a b) (hb : 0 < b) (n : ℕ) :
    Represents (em >>> n) a (b * 2 ^ n) := by
  induction n with
  | zero => rwa [pow_zero, mul_one]
  | succ n ih =>
    rw [pow_succ, ← mul_assoc]
    exact ih.shiftRightOne (Nat.mul_pos hb (Nat.two_pow_pos n))

end

/-- Rounding carries where all bits are ones, and the first one behind them is. -/
theorem carries_iff {em : ExtendedMantissa} (h : em.mantissa < 2 ^ 53) :
    2 ^ 53 ≤ em.roundedMantissa ↔ 2 ^ 54 - 1 ≤ 2 * em.mantissa + em.roundBit.toNat := by
  obtain ⟨m, round, sticky⟩ := em
  cases round <;> cases sticky <;>
    simp only [ExtendedMantissa.roundedMantissa, ExtendedMantissa.accuracy,
      Accuracy.roundToNearestEven, Bool.toNat_true, Bool.toNat_false] at h ⊢ <;> omega

/-- An amount just below the largest power of two that floats know gets a bit more by rounding if
it is too large for a float. -/
theorem carries_iff_overflow {em : ExtendedMantissa} {e' : Int}
    (h : shiftToTargetExponent Format.binary64 m e .exact = (em, e')) (hlog : 52 ≤ m.log2)
    (hexp : m.log2 + e = 1023) :
    53 ≤ em.roundedMantissa.log2 ↔ overflow ≤ (m : ℚ) * 2 ^ e := by
  obtain ⟨he, hem⟩ := shiftToTargetExponent_eq h
  obtain ⟨hshift, -⟩ := Prod.mk.inj h
  have htarget : (Format.binary64.targetExponent (totalExponent m e) - e).toNat =
      m.log2 - 52 := by
    rw [targetExponent_eq, totalExponent]
    omega
  rw [htarget] at hshift
  have hlt : em.mantissa < 2 ^ 53 :=
    Nat.lt_of_lt_of_le Nat.lt_log2_self (Nat.pow_le_pow_right (by decide) (by omega))
  have hne : em.roundedMantissa ≠ 0 := fun hzero => by
    have := (log2_roundedMantissa em).1
    rw [hzero, Nat.log2_zero] at this
    omega
  have hhalf := ((represents_whole m).shiftRight Nat.one_pos (m.log2 - 52)).halves
  rw [hshift, Nat.one_mul] at hhalf
  rw [Nat.le_log2 hne, carries_iff hlt, hhalf, Nat.le_div_iff_mul_le (Nat.two_pow_pos _),
    ← not_lt, ← not_lt, not_iff_not]
  exact (lt_overflow_iff (by omega)).symm

theorem isFinite_pack_iff {sign : Sign} {hm : 0 < m} :
    (Float.Model.pack (.finite sign m e hm)).unpack.isFinite = true ↔ e < 972 := by
  rw [unpack_pack]
  rcases pack_finite sign m e hm with ⟨hlarge, hpack⟩ | ⟨hsmall, hpack⟩
  · rw [hpack]
    refine iff_of_false ?_ (by omega)
    cases sign <;> exact nofun
  · rw [hpack]
    exact iff_of_true (isFinite_unpack (packedExponent_ne m hsmall)) hsmall

/-- What is rounded is finite if it is below `overflow`. -/
theorem isFinite_round_iff (sign : Sign) (hm : 0 < m) (hlimit : 52 ≤ m.log2 ∨ e < 972) :
    (Float.Model.pack
      (roundWithAccuracy Format.binary64 sign m e .exact)).unpack.isFinite = true ↔
        (m : ℚ) * 2 ^ e < overflow := by
  rw [roundWithAccuracy]
  cases hfirst : shiftToTargetExponent Format.binary64 m e .exact with
  | mk em e' =>
    cases hlast : shiftToTargetExponent Format.binary64 em.roundedMantissa e' .exact with
    | mk em' e'' =>
      obtain ⟨he, hem⟩ := shiftToTargetExponent_eq hfirst
      obtain ⟨he', hem'⟩ := shiftToTargetExponent_eq hlast
      have hcarry := log2_roundedMantissa em
      simp only [hlast]
      split
      · rename_i hzero
        rw [hzero, Nat.log2_zero] at hem'
        exact iff_of_true (by cases sign <;> rfl) (lt_overflow_of_log (by omega))
      · rw [isFinite_pack_iff]
        rcases Int.lt_trichotomy (m.log2 + e) 1023 with hlow | hequal | hhigh
        · exact iff_of_true (by omega) (lt_overflow_of_log (by omega))
        · rw [← not_le, ← not_le, not_iff_not,
            ← carries_iff_overflow hfirst (by omega) hequal]
          omega
        · exact iff_of_false (by omega) (not_lt_of_ge (overflow_le_of_log hm (by omega)))

/-- A float has all its bits, unless its exponent is the least. -/
theorem log2_of_unpack {b : BitVec Format.binary64.numBits} {sign : Sign} {hm : 0 < m}
    (h : UnpackedFloat.unpack Format.binary64 b = .finite sign m e hm) :
    m.log2 = 52 ∨ e = -1074 := by
  simp only [UnpackedFloat.unpack, exponentBias_eq] at h
  split at h
  · split at h <;> cases h
  · split at h
    · rename_i hsubnormal
      split at h
      · cases h
      · obtain ⟨-, -, rfl⟩ := UnpackedFloat.finite.inj h
        rw [hsubnormal]
        exact .inr rfl
    · obtain ⟨-, rfl, -⟩ := UnpackedFloat.finite.inj h
      exact .inl (log2_append_one _)

end

/-- A product of finite floats is finite if the exact product is no larger than floats get. -/
theorem isFinite_mul_iff {x y : Float} (hx : x.isFinite = true) (hy : y.isFinite = true) :
    (x * y).isFinite = true ↔
      (Magnitude.sizeOf x).value * (Magnitude.sizeOf y).value < overflow := by
  have hx : x.toModel.unpack.isFinite = true := hx
  have hy : y.toModel.unpack.isFinite = true := hy
  have hpos : 0 < overflow := mul_pos (by norm_num) (zpow_pos two_pos _)
  rw [value_sizeOf, value_sizeOf]
  show (Float.Model.pack
    (UnpackedFloat.mul Format.binary64 x.toModel.unpack y.toModel.unpack)).unpack.isFinite =
      true ↔ _
  rcases mul_cases hx hy with
    ⟨zero, sign, hzero, hmul⟩ | ⟨sign, m, e, hm, sign', m', e', hm', hu, hu'⟩
  · have hnone : partsValue x.toModel.unpack * partsValue y.toModel.unpack = 0 := by
      rcases hzero with hzero | hzero <;> rw [hzero]
      · exact zero_mul _
      · exact mul_zero _
    rw [hmul, hnone]
    exact iff_of_true (by cases sign <;> rfl) hpos
  · have hlow' := exponent_lt_of_unpack hu'
    have hlog := log2_of_unpack hu
    have hsize : partsValue x.toModel.unpack * partsValue y.toModel.unpack =
        (m * m' : ℕ) * 2 ^ (e + e') := by
      rw [hu, hu', partsValue, partsValue, zpow_add₀ two_ne_zero, Nat.cast_mul]
      ring
    have hlimit : 52 ≤ (m * m').log2 ∨ e + e' < 972 := by
      rcases hlog with hfull | hleast
      · exact .inl (hfull ▸ log2_mono (Nat.le_mul_of_pos_right m hm'))
      · exact .inr (by omega)
    rw [hsize, hu, hu']
    exact isFinite_round_iff _ (Nat.mul_pos hm hm') hlimit

end MinerFleet.Decimal
