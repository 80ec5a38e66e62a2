/-
Which floats are finite.

* `Below` — a float that is smaller than a power of two, by its parts;
* `AtLeastOne` — a float that is finite and not smaller than one;
* `Full` — a float that has all its bits;
* `isFinite_mul`, `isFinite_neg`, `below_div` — what is computed of finite floats is finite.

Rounding may carry, and then a float has one bit more, and never two (`below_roundWithAccuracy`). So
products and quotients stay below a power of two that is known beforehand, and packing keeps what is
far enough below the largest float (`Below.unpack_pack`). Where nothing is known beforehand a
product may be infinite, and nothing else goes wrong (`isFinite_mul`).

That a float is at least one is known of powers of ten (`atLeastOne_ofScientific`): they have all
their bits when they are rounded, and keep them when they are packed.
-/
import Mathlib

namespace MinerFleet.Decimal

open Float.Model Float.Model.UnpackedFloat

/-! ### Digits of whole numbers -/

theorem log2_mono {m n : Nat} (h : m ≤ n) : m.log2 ≤ n.log2 := by
  simpa only [Nat.log2_eq_log_two] using Nat.log_mono_right h

theorem log2_half (n : Nat) : (n / 2).log2 = n.log2 - 1 := by
  simpa only [Nat.log2_eq_log_two] using Nat.log_div_base 2 n

theorem log2_succ_le (n : Nat) : (n + 1).log2 ≤ n.log2 + 1 := by
  rcases Nat.eq_zero_or_pos n with rfl | hn
  · decide
  · rw [← Nat.log2_two_mul (Nat.ne_of_gt hn)]
    exact log2_mono (by omega)

theorem log2_mul_le (m n : Nat) : (m * n).log2 ≤ m.log2 + n.log2 + 1 := by
  rcases Nat.eq_zero_or_pos (m * n) with hzero | hpos
  · simp [hzero]
  · refine Nat.le_of_lt_succ ((Nat.log2_lt (Nat.ne_of_gt hpos)).mpr ?_)
    calc m * n < 2 ^ (m.log2 + 1) * 2 ^ (n.log2 + 1) :=
          Nat.mul_lt_mul'' Nat.lt_log2_self Nat.lt_log2_self
      _ = 2 ^ (m.log2 + n.log2 + 1 + 1) := by
          rw [← Nat.pow_add]
          congr 1
          omega

theorem log2_shiftLeft_div_le (m shift : Nat) {d : Nat} (hd : 0 < d) :
    (m <<< shift / d).log2 ≤ m.log2 + shift - d.log2 := by
  rcases Nat.eq_zero_or_pos (m <<< shift / d) with hzero | hpos
  · simp [hzero]
  · suffices (m <<< shift / d).log2 + d.log2 < m.log2 + 1 + shift by omega
    refine (Nat.pow_lt_pow_iff_right (by decide : 1 < 2)).mp ?_
    calc 2 ^ ((m <<< shift / d).log2 + d.log2)
        = 2 ^ (m <<< shift / d).log2 * 2 ^ d.log2 := Nat.pow_add ..
      _ ≤ m <<< shift / d * d :=
          Nat.mul_le_mul (Nat.log2_self_le (Nat.ne_of_gt hpos))
            (Nat.log2_self_le (Nat.ne_of_gt hd))
      _ ≤ m <<< shift := Nat.div_mul_le_self ..
      _ = m * 2 ^ shift := Nat.shiftLeft_eq ..
      _ < 2 ^ (m.log2 + 1) * 2 ^ shift :=
          Nat.mul_lt_mul_of_pos_right Nat.lt_log2_self (Nat.two_pow_pos _)
      _ = 2 ^ (m.log2 + 1 + shift) := (Nat.pow_add ..).symm

theorem log2_shiftLeft_le (m shift : Nat) : (m <<< shift).log2 ≤ m.log2 + shift := by
  have := log2_shiftLeft_div_le m shift Nat.one_pos
  rwa [Nat.div_one] at this

/-! ### Rounding -/

/-- A float in parts that is finite, smaller than two to the `k` and no finer than floats are. -/
inductive Below (k : Int) : UnpackedFloat → Prop
  | zero {sign : Sign} : Below k (.zero sign)
  | finite {sign : Sign} {m : Nat} {e : Int} {hm : 0 < m} (hfine : -1074 ≤ e)
      (hlt : totalExponent m e ≤ k) : Below k (.finite sign m e hm)

/-- A float in parts that is finite and not smaller than one. -/
inductive AtLeastOne : UnpackedFloat → Prop
  | finite {sign : Sign} {m : Nat} {e : Int} {hm : 0 < m} (hle : 1 ≤ totalExponent m e) :
      AtLeastOne (.finite sign m e hm)

/-- A float in parts that has all its bits, with its exponent. -/
inductive Full (e : Int) : UnpackedFloat → Prop
  | finite {sign : Sign} {m : Nat} {hm : 0 < m} (hlog : m.log2 = 52) : Full e (.finite sign m e hm)

instance (k : Int) (x : UnpackedFloat) : Decidable (Below k x) :=
  match x with
  | .zero _ => .isTrue .zero
  | .finite _ m e _ => decidable_of_iff (-1074 ≤ e ∧ totalExponent m e ≤ k)
      ⟨fun h => .finite h.1 h.2, fun | .finite hfine hlt => ⟨hfine, hlt⟩⟩
  | .infinity _ => .isFalse nofun
  | .notANumber => .isFalse nofun

instance (x : UnpackedFloat) : Decidable (AtLeastOne x) :=
  match x with
  | .finite _ m e _ => decidable_of_iff (1 ≤ totalExponent m e)
      ⟨.finite, fun | .finite hle => hle⟩
  | .zero _ => .isFalse nofun
  | .infinity _ => .isFalse nofun
  | .notANumber => .isFalse nofun

theorem AtLeastOne.isFinite {x : UnpackedFloat} (h : AtLeastOne x) : x.isFinite = true := by
  cases h
  rfl

theorem targetExponent_eq (e : Int) :
    Format.binary64.targetExponent e = max (e - 53) (-1074) := rfl

theorem log2_shiftRight (em : ExtendedMantissa) (shift : Nat) :
    (em >>> shift).mantissa.log2 = em.mantissa.log2 - shift := by
  induction shift with
  | zero => rfl
  | succ shift ih =>
    have hstep : (em >>> (shift + 1)).mantissa = (em >>> shift).mantissa / 2 := rfl
    rw [hstep, log2_half, ih, Nat.sub_sub]

theorem mantissa_ofMantissaAndAccuracy (m : Nat) (accuracy : Accuracy) :
    (ExtendedMantissa.ofMantissaAndAccuracy m accuracy).mantissa = m := by
  rcases accuracy with _ | _ | _ | _ <;> rfl

theorem roundedMantissa_bounds (em : ExtendedMantissa) :
    em.mantissa ≤ em.roundedMantissa ∧ em.roundedMantissa ≤ em.mantissa + 1 := by
  obtain ⟨m, round, sticky⟩ := em
  cases round <;> cases sticky <;>
    simp only [ExtendedMantissa.roundedMantissa, ExtendedMantissa.accuracy,
      Accuracy.roundToNearestEven] <;> omega

theorem log2_roundedMantissa (em : ExtendedMantissa) :
    em.mantissa.log2 ≤ em.roundedMantissa.log2 ∧
      em.roundedMantissa.log2 ≤ em.mantissa.log2 + 1 := by
  obtain ⟨hle, hle'⟩ := roundedMantissa_bounds em
  exact ⟨log2_mono hle, Nat.le_trans (log2_mono hle') (log2_succ_le _)⟩

section

variable {k : Int}

theorem Below.isFinite {x : UnpackedFloat} (h : Below k x) : x.isFinite = true := by
  cases h <;> rfl

/-- What does not fit is shifted out. -/
theorem shiftToTargetExponent_eq {m : Nat} {e e' : Int} {accuracy : Accuracy}
    {em : ExtendedMantissa}
    (h : shiftToTargetExponent Format.binary64 m e accuracy = (em, e')) :
    e' = max e (max (m.log2 + e - 52) (-1074)) ∧
      em.mantissa.log2 = m.log2 - (e' - e).toNat := by
  obtain ⟨rfl, rfl⟩ := Prod.mk.inj h
  simp only [log2_shiftRight, mantissa_ofMantissaAndAccuracy, targetExponent_eq, totalExponent]
  omega

theorem totalExponent_shift {m : Nat} {e e' : Int} {accuracy : Accuracy} {em : ExtendedMantissa}
    (h : shiftToTargetExponent Format.binary64 m e accuracy = (em, e')) (hk : -1073 ≤ k)
    (hm : totalExponent m e ≤ k) : -1074 ≤ e' ∧ totalExponent em.mantissa e' ≤ k := by
  obtain ⟨he, hlog⟩ := shiftToTargetExponent_eq h
  rw [totalExponent] at hm ⊢
  omega

/-- Rounding carries once at most. -/
theorem below_roundWithAccuracy (sign : Sign) {m : Nat} {e : Int} (accuracy : Accuracy)
    (hk : -1073 ≤ k) (hm : totalExponent m e ≤ k) :
    Below (k + 1) (roundWithAccuracy Format.binary64 sign m e accuracy) := by
  rw [roundWithAccuracy]
  cases hfirst : shiftToTargetExponent Format.binary64 m e accuracy with
  | mk em e' =>
    cases hlast : shiftToTargetExponent Format.binary64 em.roundedMantissa e' .exact with
    | mk em' e'' =>
      obtain ⟨-, hem⟩ := totalExponent_shift hfirst hk hm
      have hcarry : totalExponent em.roundedMantissa e' ≤ k + 1 := by
        have := log2_roundedMantissa em
        rw [totalExponent] at hem ⊢
        omega
      have hrounded := totalExponent_shift hlast (by omega) hcarry
      simp only [hlast]
      split
      · exact .zero
      · exact .finite hrounded.1 hrounded.2

/-- What has enough bits has all of them when it is rounded. -/
theorem full_roundWithAccuracy (sign : Sign) {m : Nat} {e : Int} (accuracy : Accuracy)
    (hlog : 52 ≤ m.log2) (hlow : -1022 ≤ m.log2 + e) :
    ∃ e', m.log2 + e - 52 ≤ e' ∧ e' ≤ m.log2 + e - 51 ∧
      Full e' (roundWithAccuracy Format.binary64 sign m e accuracy) := by
  rw [roundWithAccuracy]
  cases hfirst : shiftToTargetExponent Format.binary64 m e accuracy with
  | mk em e' =>
    cases hlast : shiftToTargetExponent Format.binary64 em.roundedMantissa e' .exact with
    | mk em' e'' =>
      obtain ⟨he, hem⟩ := shiftToTargetExponent_eq hfirst
      obtain ⟨he', hem'⟩ := shiftToTargetExponent_eq hlast
      have hcarry := log2_roundedMantissa em
      have hfull : em'.mantissa.log2 = 52 := by omega
      have hne : em'.mantissa ≠ 0 := fun hzero => by
        rw [hzero, Nat.log2_zero] at hfull
        cases hfull
      simp only [hlast]
      rw [dif_neg hne]
      exact ⟨e'', by omega, by omega, .finite hfull⟩

theorem below_round (sign : Sign) {m : Nat} {e : Int} (hk : -1073 ≤ k)
    (hm : totalExponent m e ≤ k) :
    Below (k + 1) (UnpackedFloat.round Format.binary64 sign m e) := by
  refine below_roundWithAccuracy _ _ hk ?_
  have := log2_shiftLeft_le m (e - Format.binary64.targetExponent (totalExponent m e)).toNat
  simp only [totalExponent, targetExponent_eq] at hm this ⊢
  omega

/-! ### Products and quotients -/

/-- Finite floats are multiplied by their parts, if none is zero. -/
theorem mul_cases {x y : UnpackedFloat} (hx : x.isFinite = true) (hy : y.isFinite = true) :
    (∃ zero sign, (x = .zero zero ∨ y = .zero zero) ∧
      UnpackedFloat.mul Format.binary64 x y = .zero sign) ∨
      ∃ sign m e hm sign' m' e' hm', x = .finite sign m e hm ∧ y = .finite sign' m' e' hm' := by
  cases x with
  | infinity sign => cases hx
  | notANumber => cases hx
  | zero sign =>
    cases y with
    | infinity sign' => cases hy
    | notANumber => cases hy
    | zero sign' => exact .inl ⟨sign, _, .inl rfl, rfl⟩
    | finite sign' m' e' hm' => exact .inl ⟨sign, _, .inl rfl, rfl⟩
  | finite sign m e hm =>
    cases y with
    | infinity sign' => cases hy
    | notANumber => cases hy
    | zero sign' => exact .inl ⟨sign', _, .inr rfl, rfl⟩
    | finite sign' m' e' hm' => exact .inr ⟨sign, m, e, hm, sign', m', e', hm', rfl, rfl⟩

theorem below_mul {x y : UnpackedFloat} {j : Int} (hk : -1073 ≤ j + k) (hx : Below j x)
    (hy : Below k y) : Below (j + k + 1) (UnpackedFloat.mul Format.binary64 x y) := by
  rcases mul_cases hx.isFinite hy.isFinite with
    ⟨-, sign, -, hzero⟩ | ⟨sign, m, e, hm, sign', m', e', hm', rfl, rfl⟩
  · rw [hzero]
    exact .zero
  · cases hx with
    | finite hfine hlt =>
      cases hy with
      | finite hfine' hlt' =>
        have hlog := log2_mul_le m m'
        refine below_roundWithAccuracy _ _ hk ?_
        rw [totalExponent] at hlt hlt' ⊢
        omega

theorem below_div {x y : UnpackedFloat} (hk : -1073 ≤ k) (hx : Below k x) (hy : AtLeastOne y) :
    Below (k + 1) (UnpackedFloat.div Format.binary64 x y) := by
  cases hy with
  | @finite sign' m' e' hm' hle =>
    cases hx with
    | zero => exact .zero
    | @finite sign m e hm hfine hlt =>
      refine below_roundWithAccuracy _ _ hk ?_
      have := log2_shiftLeft_div_le m
        (e - e' - min (e - e') (Format.binary64.targetExponent
          (totalExponent m e - totalExponent m' e'))).toNat hm'
      simp only [totalExponent, targetExponent_eq] at hlt hle this ⊢
      omega

end

/-! ### Packing -/

theorem exponentBias_eq : Format.binary64.exponentBias = 1023 := rfl

theorem toNat_append_one (v : BitVec 52) : (1#1 ++ v).toNat = 2 ^ 52 + v.toNat := by
  rw [BitVec.toNat_append, ← Nat.shiftLeft_add_eq_or_of_lt v.isLt]
  rfl

theorem log2_append_one (v : BitVec 52) : (1#1 ++ v).toNat.log2 = 52 := by
  have hv := v.isLt
  rw [toNat_append_one, Nat.log2_eq_iff (by omega)]
  omega

/-- The exponent under which a finite float is packed. -/
def packedExponent (m : Nat) (e : Int) : BitVec 11 :=
  if m.log2 = 52 then BitVec.ofNat 11 (e + 1075).toNat else 0#11

theorem toNat_packedExponent {m : Nat} {e : Int} (he : e < 972) (hm : m.log2 = 52) :
    (packedExponent m e).toNat = (e + 1075).toNat := by
  rw [packedExponent, if_pos hm, BitVec.toNat_ofNat, Nat.mod_eq_of_lt (by omega)]

theorem packedExponent_ne (m : Nat) {e : Int} (he : e < 972) : packedExponent m e ≠ -1#11 := by
  by_cases hm : m.log2 = 52
  · intro hones
    have hnat := congrArg BitVec.toNat hones
    rw [toNat_packedExponent he hm] at hnat
    have hmax : (-1#11).toNat = 2047 := rfl
    omega
  · rw [packedExponent, if_neg hm]
    decide

theorem unpack_pack (x : UnpackedFloat) : (Float.Model.pack x).unpack =
    UnpackedFloat.unpack Format.binary64 (UnpackedFloat.pack Format.binary64 x) := rfl

/-- A finite float is packed as it is, unless its exponent is too large. -/
theorem pack_finite (sign : Sign) (m : Nat) (e : Int) (hm : 0 < m) :
    (972 ≤ e ∧ UnpackedFloat.pack Format.binary64 (.finite sign m e hm) =
      packedInfinity Format.binary64 sign) ∨
    e < 972 ∧ UnpackedFloat.pack Format.binary64 (.finite sign m e hm) =
      packComponents Format.binary64 sign (packedExponent m e) (BitVec.ofNat 52 m) := by
  have hbias : (e + Format.binary64.exponentBias + (52 : Nat)).toNat = (e + 1075).toNat := by
    rw [exponentBias_eq, Int.add_assoc]
    rfl
  have hbits : m.log2 + 1 = Format.binary64.mantissaBits ↔ m.log2 = 52 := Nat.succ_inj
  have hpow : Nat.pow 2 11 = 2048 := rfl
  rw [UnpackedFloat.pack]
  dsimp only
  rw [hbias]
  by_cases hlarge : Nat.pow 2 11 ≤ (e + 1075).toNat + 1
  · rw [if_pos hlarge]
    exact .inl ⟨by omega, rfl⟩
  · rw [if_neg hlarge, packedExponent]
    refine .inr ⟨by omega, ?_⟩
    simp only [hbits]
    split <;> rfl

theorem isFinite_unpack {sign : Sign} {exponent : BitVec 11} {mantissa : BitVec 52}
    (hne : exponent ≠ -1#11) : (UnpackedFloat.unpack Format.binary64
      (packComponents Format.binary64 sign exponent mantissa)).isFinite = true := by
  simp only [UnpackedFloat.unpack, unpackMantissa_packComponents, unpackExponent_packComponents,
    if_neg hne]
  split
  · split <;> rfl
  · rfl

/-- A float that is packed becomes infinite if its exponent is too large, and else stays finite. -/
theorem isFinite_pack {x : UnpackedFloat} (h : x.isFinite = true) :
    (Float.Model.pack x).unpack.isFinite = true ∨
      (Float.Model.pack x).unpack.isInf = true ∧
        ∃ sign m e hm, x = .finite sign m e hm ∧ 972 ≤ e := by
  cases x with
  | infinity sign => cases h
  | notANumber => cases h
  | zero sign => exact .inl (by cases sign <;> rfl)
  | finite sign m e hm =>
    rw [unpack_pack]
    rcases pack_finite sign m e hm with ⟨hlarge, hpack⟩ | ⟨hsmall, hpack⟩
    · rw [hpack]
      exact .inr ⟨by cases sign <;> rfl, sign, m, e, hm, rfl, hlarge⟩
    · rw [hpack]
      exact .inl (isFinite_unpack (packedExponent_ne m hsmall))

theorem sign_packComponents {spec : Format} {sign exponent mantissa} :
    Sign.ofBitVec (unpackSign (packComponents spec sign exponent mantissa)) = sign := by
  have hsign : unpackSign (packComponents spec sign exponent mantissa) = sign.toBitVec := by
    ext i hi
    have hzero : i = 0 := Nat.lt_one_iff.mp hi
    simp [unpackSign, packComponents, hzero, BitVec.getLsbD_append, BitVec.getLsbD_eq_getElem,
      BitVec.getElem_append]
  rw [hsign]
  cases sign <;> rfl

/-- The leading bit is left out where a mantissa is packed, and put back. -/
theorem toNat_append_ofNat {m : Nat} (hlog : m.log2 = 52) :
    (1#1 ++ BitVec.ofNat 52 m).toNat = m := by
  have hne : m ≠ 0 := fun hzero => by
    rw [hzero] at hlog
    cases hlog
  have hbounds := (Nat.log2_eq_iff hne).mp hlog
  rw [toNat_append_one, BitVec.toNat_ofNat]
  omega

/-- A float that has all its bits is packed as it is, unless its exponent is too large. -/
theorem unpack_pack_of_bits {m : Nat} {e : Int} (sign : Sign) (hm : 0 < m) (hlog : m.log2 = 52)
    (hlow : -1074 ≤ e) (hhigh : e < 972) :
    (Float.Model.pack (.finite sign m e hm)).unpack = .finite sign m e hm := by
  rcases pack_finite sign m e hm with ⟨hlarge, -⟩ | ⟨-, hpack⟩
  · omega
  · have hnat := toNat_packedExponent hhigh hlog
    have hzero : packedExponent m e ≠ 0#11 := fun hzero => by
      have := congrArg BitVec.toNat hzero
      rw [hnat] at this
      have hnone : (0#11).toNat = 0 := rfl
      omega
    have he : ((e + 1075).toNat : Int) - ((1023 : Nat) + (52 : Nat)) = e := by omega
    rw [Decimal.unpack_pack, hpack, UnpackedFloat.unpack]
    simp only [unpackMantissa_packComponents, unpackExponent_packComponents, sign_packComponents,
      if_neg (packedExponent_ne m hhigh), if_neg hzero, exponentBias_eq, hnat, he,
      toNat_append_ofNat hlog]

theorem Full.unpack_pack {x : UnpackedFloat} {e : Int} (h : Full e x) (hlow : -1074 ≤ e)
    (hhigh : e < 972) : Full e (Float.Model.pack x).unpack := by
  obtain @⟨sign, m, hm, hlog⟩ := h
  rw [unpack_pack_of_bits sign hm hlog hlow hhigh]
  exact .finite hlog

theorem Full.below {x : UnpackedFloat} {e k : Int} (h : Full e x) (hlow : -1074 ≤ e)
    (hk : 53 + e ≤ k) : Below k x := by
  obtain ⟨hlog⟩ := h
  refine .finite hlow ?_
  rw [totalExponent, hlog]
  omega

theorem Full.atLeastOne {x : UnpackedFloat} {e : Int} (h : Full e x) (hlow : -52 ≤ e) :
    AtLeastOne x := by
  obtain ⟨hlog⟩ := h
  refine .finite ?_
  rw [totalExponent, hlog]
  omega

/-- What is packed without a leading bit is below what it was packed from. -/
theorem below_unpack_subnormal {sign : Sign} {m : Nat} {k : Int}
    (hk : (m.log2 : Int) - 1073 ≤ k) : Below k (UnpackedFloat.unpack Format.binary64
      (packComponents Format.binary64 sign 0#11 (BitVec.ofNat 52 m))) := by
  have hnat : (0#11).toNat = 0 := rfl
  simp only [UnpackedFloat.unpack, unpackMantissa_packComponents, unpackExponent_packComponents,
    exponentBias_eq, hnat]
  rw [if_neg (by decide), if_pos trivial]
  split
  · exact .zero
  · have hlog : (BitVec.ofNat 52 m).toNat.log2 ≤ m.log2 := by
      rw [BitVec.toNat_ofNat]
      exact log2_mono (Nat.mod_le _ _)
    refine .finite (by decide) ?_
    rw [totalExponent]
    omega

/-- What is far enough below the largest float stays where it is. -/
theorem Below.unpack_pack {x : UnpackedFloat} {k : Int} (h : Below k x) (hk : k ≤ 972) :
    Below k (Float.Model.pack x).unpack := by
  cases h with
  | @zero sign => cases sign <;> exact .zero
  | @finite sign m e hm hfine hlt =>
    rw [totalExponent] at hlt
    by_cases hlog : m.log2 = 52
    · exact (Full.unpack_pack (.finite hlog) hfine (by omega)).below hfine (by omega)
    · rcases pack_finite sign m e hm with ⟨hlarge, -⟩ | ⟨-, hpack⟩
      · omega
      · rw [Decimal.unpack_pack, hpack, packedExponent, if_neg hlog]
        exact below_unpack_subnormal (by omega)

theorem exponent_lt_of_unpack {b : BitVec Format.binary64.numBits} {sign : Sign} {m : Nat}
    {e : Int} {hm : 0 < m} (h : UnpackedFloat.unpack Format.binary64 b = .finite sign m e hm) :
    e < 972 := by
  have hlt : (unpackExponent b).toNat < 2048 := BitVec.isLt _
  simp only [UnpackedFloat.unpack, exponentBias_eq] at h
  split at h
  · split at h <;> cases h
  · rename_i hones
    have hne : (unpackExponent b).toNat ≠ 2047 := fun he => hones (BitVec.eq_of_toNat_eq he)
    split at h
    · rename_i hzero
      have hnat : (unpackExponent b).toNat = 0 := congrArg BitVec.toNat hzero
      split at h
      · cases h
      · injection h
        omega
    · injection h
      omega

/-! ### Floats -/

theorem isFinite_neg {x : Float} (h : x.isFinite = true) : (-x).isFinite = true := by
  have hx : x.toModel.unpack.isFinite = true := h
  show (Float.Model.pack x.toModel.unpack.neg).unpack.isFinite = true
  cases hu : x.toModel.unpack with
  | infinity sign =>
    rw [hu] at hx
    cases hx
  | notANumber =>
    rw [hu] at hx
    cases hx
  | zero sign => cases sign <;> rfl
  | finite sign m e hm =>
    refine (isFinite_pack (x := .finite (-sign) m e hm) rfl).resolve_right ?_
    rintro ⟨-, sign', m', e', hm', he, hle⟩
    have := exponent_lt_of_unpack hu
    injection he
    omega

/-- A product of finite floats is finite if it is not infinite. -/
theorem isFinite_mul {x y : Float} (hx : x.isFinite = true) (hy : y.isFinite = true)
    (h : (x * y).isInf = false) : (x * y).isFinite = true := by
  have hproduct :
      (UnpackedFloat.mul Format.binary64 x.toModel.unpack y.toModel.unpack).isFinite = true := by
    rcases mul_cases hx hy with
      ⟨-, sign, -, hzero⟩ | ⟨sign, m, e, hm, sign', m', e', hm', he, he'⟩
    · rw [hzero]
      rfl
    · rw [he, he', UnpackedFloat.mul, roundWithAccuracy]
      dsimp only
      split <;> rfl
  exact (isFinite_pack hproduct).resolve_right fun hlarge =>
    Bool.false_ne_true (h.symm.trans hlarge.1)

theorem below_normalize {n k : Int} (hk : -1073 ≤ k) (hn : totalExponent n.natAbs 0 ≤ k) :
    Below (k + 1) (UnpackedFloat.normalize Format.binary64 n 0 .positive) := by
  rw [UnpackedFloat.normalize]
  split
  · rename_i hneg
    have hnat : (-n).toNat = n.natAbs := by
      rw [Int.compare_eq_lt] at hneg
      omega
    exact below_round _ hk (by rwa [hnat])
  · exact .zero
  · rename_i hpos
    have hnat : n.toNat = n.natAbs := by
      rw [Int.compare_eq_gt] at hpos
      omega
    exact below_round _ hk (by rwa [hnat])

/-- What fits into the digits of a float becomes a float that is not much larger. -/
theorem below_word {n : Nat} {k : Int} (hn : n < 2 ^ 53) (hlog : n.log2 < k) (hk : k < 972) :
    Below (k + 1) n.toUInt64.toFloat.toModel.unpack := by
  have hword : n.toUInt64.toNat = n := by
    rw [Nat.toUInt64, UInt64.toNat_ofNat', Nat.mod_eq_of_lt (Nat.lt_trans hn (by decide))]
  refine (below_normalize (by omega) ?_).unpack_pack (by omega)
  rw [hword, totalExponent, Int.natAbs_natCast]
  omega

/-- A whole number is a float that is not much larger, unless it has too many bits for a float. -/
theorem below_whole {n : Nat} {k : Int} (hn : n.log2 ≤ k) (hk : k ≤ 968) :
    Below (k + 4) (Float.ofScientific n false 0).toModel.unpack := by
  have hsum : k + 4 = k + 1 + 1 + 1 + 1 := by omega
  rw [hsum, Float.ofScientific]
  split
  · -- What fits into the digits of a float is converted and multiplied by one.
    rename_i hsmall
    have hone : Below 1 (Float.exactlyRepresentablePowersOfTen[0]).toModel.unpack := by
      decide +kernel
    have hword := below_word hsmall.1 (Int.lt_add_one_of_le hn) (by omega)
    exact (below_mul (by omega) hword hone).unpack_pack (by omega)
  · show Below _ (Float.Model.pack (UnpackedFloat.ofScientific Format.binary64 n 0)).unpack
    refine Below.unpack_pack ?_ (by omega)
    rw [UnpackedFloat.ofScientific]
    split
    · exact .zero
    · have hmax : (2 : Int) ^ Format.binary64.exponentBits = 2048 := rfl
      rw [if_neg (by decide), if_neg (by omega), if_pos (by decide)]
      refine below_mul (j := k + 1 + 1) (k := 1) (by omega) (.finite (by decide) ?_)
        (.finite (by decide) (by decide))
      have hshift := log2_shiftLeft_le n 53
      show totalExponent (n <<< 53) (-53) ≤ k + 1 + 1
      rw [totalExponent]
      omega

/-- A whole number of 64 bits is no large float. -/
theorem below_ofNat {n : Nat} (h : n < UInt64.size) : Below 67 (Float.ofNat n).toModel.unpack := by
  have hlog : n.log2 ≤ (UInt64.size - 1).log2 := log2_mono (Nat.le_sub_one_of_lt h)
  have hbits : (UInt64.size - 1).log2 = 63 := by decide
  exact below_whole (k := 63) (by omega) (by decide)

/-- Powers of ten are at least one, as long as they are no larger than floats are. -/
theorem atLeastOne_ofScientific {n : Nat} (h : n ≤ 307) :
    AtLeastOne (Float.Model.ofScientific 1 n).unpack := by
  have hmax : (2 : Int) ^ Format.binary64.exponentBits = 2048 := rfl
  have hlog : (Nat.log2 1 : Int) = 0 := rfl
  have hlow : (1 <<< 53).log2 ≤ (1 <<< 53 * 10 ^ n).log2 :=
    log2_mono (Nat.le_mul_of_pos_right _ (Nat.pow_pos (by decide)))
  -- The largest is written as a product: powers with an exponent over 256 are not evaluated.
  have hle : 10 ^ n ≤ 10 ^ 200 * 10 ^ 107 := by
    calc 10 ^ n ≤ 10 ^ (min n 200 + 107) := Nat.pow_le_pow_right (by decide) (by omega)
      _ = 10 ^ min n 200 * 10 ^ 107 := Nat.pow_add ..
      _ ≤ 10 ^ 200 * 10 ^ 107 :=
        Nat.mul_le_mul_right _ (Nat.pow_le_pow_right (by decide) (Nat.min_le_right ..))
  have hhigh : (1 <<< 53 * 10 ^ n).log2 ≤ (1 <<< 53 * (10 ^ 200 * 10 ^ 107)).log2 :=
    log2_mono (Nat.mul_le_mul_left _ hle)
  have hone : (1 <<< 53).log2 = 53 := by decide +kernel
  have hlast : (1 <<< 53 * (10 ^ 200 * 10 ^ 107)).log2 = 1072 := by decide +kernel
  show AtLeastOne (Float.Model.pack (UnpackedFloat.ofScientific Format.binary64 1 n)).unpack
  rw [UnpackedFloat.ofScientific, dif_neg (by decide), if_neg (by omega), if_neg (by omega),
    if_pos (by omega)]
  obtain ⟨e, he, he', hfull⟩ := full_roundWithAccuracy (.positive * .positive)
    (m := 1 <<< 53 * 10 ^ n) (e := -53 + 0) .exact (by omega) (by omega)
  exact (Full.unpack_pack hfull (by omega) (by omega)).atLeastOne (by omega)

end MinerFleet.Decimal
