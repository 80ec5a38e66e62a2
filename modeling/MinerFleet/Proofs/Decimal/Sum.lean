/-
What zero adds to a float.

* `Plain` — a float in parts that is packed as what it is, and not as the signed zero;
* `SignedZero` — the zero with a minus sign in front, to which zero adds its own sign.

Any other float is left as it is by adding zero (`add_zero_of_not_signedZero`). And a sum that
starts without the signed zero never becomes it (`not_signedZero_add`): what does not vanish when
two floats are added is a multiple of the finest float, and so does not vanish either when it is
rounded (`plain_round`).
-/
import MinerFleet.Proofs.Decimal.Finite

namespace MinerFleet.Decimal

open Float.Model Float.Model.UnpackedFloat

/-- A float in parts that is not the signed zero, and that fits into the bits of a float if it is
finite. -/
inductive Plain : UnpackedFloat → Prop
  | infinity {sign : Sign} : Plain (.infinity sign)
  | notANumber : Plain .notANumber
  | zero : Plain (.zero .positive)
  | finite {sign : Sign} {m : Nat} {e : Int} {hm : 0 < m} (hlog : m.log2 ≤ 52) (hlow : -1074 ≤ e) :
    Plain (.finite sign m e hm)

/-! ### Rounding -/

/-- What is no finer than floats are does not vanish where bits are shifted out. -/
theorem pos_shiftToTargetExponent {m : Nat} {e e' : Int} {accuracy : Accuracy}
    {em : ExtendedMantissa}
    (h : shiftToTargetExponent Format.binary64 m e accuracy = (em, e')) (hm : 0 < m)
    (hlow : -1074 ≤ e) : 0 < em.mantissa ∧ em.mantissa.log2 ≤ 52 ∧ -1074 ≤ e' := by
  obtain ⟨he, hlog⟩ := shiftToTargetExponent_eq h
  refine ⟨?_, by omega, by omega⟩
  obtain ⟨hem, hexp⟩ := Prod.mk.inj h
  generalize (Format.binary64.targetExponent (totalExponent m e) - e).toNat = shift at hem hexp
  cases shift with
  | zero =>
    have hsame : em.mantissa = m := by
      rw [← hem]
      exact mantissa_ofMantissaAndAccuracy m accuracy
    rwa [hsame]
  | succ shift =>
    -- Bits are shifted out only of a mantissa that has too many, and it has all it may have then.
    refine Nat.pos_of_ne_zero fun hzero => ?_
    rw [hzero, Nat.log2_zero] at hlog
    omega

theorem plain_roundWithAccuracy (sign : Sign) {m : Nat} {e : Int} (accuracy : Accuracy)
    (hm : 0 < m) (hlow : -1074 ≤ e) :
    Plain (roundWithAccuracy Format.binary64 sign m e accuracy) := by
  rw [roundWithAccuracy]
  cases hfirst : shiftToTargetExponent Format.binary64 m e accuracy with
  | mk em e' =>
    cases hlast : shiftToTargetExponent Format.binary64 em.roundedMantissa e' .exact with
    | mk em' e'' =>
      obtain ⟨hpos, -, hlow'⟩ := pos_shiftToTargetExponent hfirst hm hlow
      obtain ⟨hpos', hlog, hlow''⟩ := pos_shiftToTargetExponent hlast
        (Nat.lt_of_lt_of_le hpos (roundedMantissa_bounds em).1) hlow'
      simp only [hlast]
      rw [dif_neg (Nat.ne_of_gt hpos')]
      exact .finite hlog hlow''

theorem plain_round (sign : Sign) {m : Nat} {e : Int} (hm : 0 < m) (hlow : -1074 ≤ e) :
    Plain (UnpackedFloat.round Format.binary64 sign m e) := by
  refine plain_roundWithAccuracy _ _ ?_ ?_
  · rw [Nat.shiftLeft_eq]
    exact Nat.mul_pos hm (Nat.two_pow_pos _)
  · simp only [targetExponent_eq]
    omega

theorem plain_normalize (n : Int) {e : Int} (hlow : -1074 ≤ e) :
    Plain (UnpackedFloat.normalize Format.binary64 n e .positive) := by
  rw [UnpackedFloat.normalize]
  split
  · rename_i hneg
    rw [Int.compare_eq_lt] at hneg
    exact plain_round _ (by omega) hlow
  · exact .zero
  · rename_i hpos
    rw [Int.compare_eq_gt] at hpos
    exact plain_round _ (by omega) hlow

/-! ### Packing -/

/-- What is unpacked is plain, unless it is the signed zero. -/
theorem unpack_cases (b : BitVec Format.binary64.numBits) :
    UnpackedFloat.unpack Format.binary64 b = .zero .negative ∨
      Plain (UnpackedFloat.unpack Format.binary64 b) := by
  have hdigits : ∀ m < 2 ^ 53, m.log2 ≤ 52 := fun m hm =>
    Nat.le_trans (log2_mono (Nat.le_sub_one_of_lt hm)) (by decide)
  simp only [UnpackedFloat.unpack, exponentBias_eq]
  generalize Sign.ofBitVec (unpackSign b) = sign
  split
  · split
    · exact .inr .infinity
    · exact .inr .notANumber
  · split
    · split
      · cases sign with
        | negative => exact .inl rfl
        | positive => exact .inr .zero
      · refine .inr (.finite ?_ ?_)
        · exact hdigits _ (Nat.lt_trans (BitVec.isLt _) (by decide))
        · omega
    · rename_i hexponent
      have hne : (unpackExponent b).toNat ≠ 0 := fun he => hexponent (BitVec.eq_of_toNat_eq he)
      exact .inr (.finite (hdigits _ (BitVec.isLt _)) (by omega))

theorem Plain.unpack_pack {x : UnpackedFloat} (h : Plain x) :
    (Float.Model.pack x).unpack ≠ .zero .negative := by
  cases h with
  | @infinity sign => cases sign <;> exact nofun
  | notANumber => exact nofun
  | zero => exact nofun
  | @finite sign m e hm hlog hlow =>
    rw [Decimal.unpack_pack]
    rcases pack_finite sign m e hm with ⟨-, hpack⟩ | ⟨hsmall, hpack⟩
    · rw [hpack]
      cases sign <;> exact nofun
    · rw [hpack]
      simp only [UnpackedFloat.unpack, unpackMantissa_packComponents,
        unpackExponent_packComponents, if_neg (packedExponent_ne m hsmall)]
      split
      · rename_i hzero
        -- A leading bit would be seen in the exponent, and any other is one of the mantissa.
        have hlt : m.log2 < 52 := by
          refine Nat.lt_of_le_of_ne hlog fun hfull => ?_
          have hnat := toNat_packedExponent hsmall hfull
          rw [hzero] at hnat
          have hnone : (0#11).toNat = 0 := rfl
          omega
        have hmantissa : BitVec.ofNat 52 m ≠ 0#52 := by
          intro hnone
          have hnat := congrArg BitVec.toNat hnone
          rw [BitVec.toNat_ofNat, Nat.mod_eq_of_lt ((Nat.log2_lt (Nat.ne_of_gt hm)).mp hlt)] at hnat
          exact Nat.ne_of_gt hm hnat
        rw [dif_neg hmantissa]
        exact nofun
      · exact nofun

/-! ### Sums -/

/-- The zero with a minus sign in front. -/
def SignedZero (x : Float) : Prop :=
  x.toModel.unpack = .zero .negative

theorem ofModel_pack (x : Float) : Float.ofModel (Float.Model.pack x.toModel.unpack) = x := by
  obtain ⟨⟨bits, hvalid⟩⟩ := x
  have hbits := pack_unpack_of_valid hvalid
  show Float.ofModel ⟨UInt64.ofBitVec _, _⟩ = _
  congr 2
  exact congrArg UInt64.ofBitVec hbits

theorem unpack_zero : (0 : Float).toModel.unpack = .zero .positive := rfl

/-- Zero adds nothing to a float that is not the signed zero. -/
theorem add_zero_of_not_signedZero {x : Float} (h : ¬SignedZero x) : x + 0 = x := by
  have hsum : UnpackedFloat.add Format.binary64 x.toModel.unpack (.zero .positive) =
      x.toModel.unpack := by
    cases hx : x.toModel.unpack with
    | infinity sign => rfl
    | notANumber => rfl
    | finite sign m e hm => rfl
    | zero sign =>
      cases sign with
      | negative => exact absurd hx h
      | positive => rfl
  show Float.ofModel (Float.Model.pack (UnpackedFloat.add _ _ (0 : Float).toModel.unpack)) = x
  rw [unpack_zero, hsum, ofModel_pack]

theorem plain_add {a b : UnpackedFloat} (ha : Plain a) (hb : b = .zero .negative ∨ Plain b) :
    Plain (UnpackedFloat.add Format.binary64 a b) := by
  rcases hb with rfl | hb
  · cases ha with
    | infinity => exact .infinity
    | notANumber => exact .notANumber
    | zero => exact .zero
    | finite hlog hlow => exact .finite hlog hlow
  · cases ha with
    | @infinity sign =>
      cases hb with
      | @infinity sign' =>
        rw [UnpackedFloat.add]
        split
        · exact .infinity
        · exact .notANumber
      | notANumber => exact .notANumber
      | zero => exact .infinity
      | finite => exact .infinity
    | notANumber => cases hb <;> exact .notANumber
    | zero =>
      cases hb with
      | infinity => exact .infinity
      | notANumber => exact .notANumber
      | zero => exact .zero
      | finite hlog hlow => exact .finite hlog hlow
    | finite hlog hlow =>
      cases hb with
      | infinity => exact .infinity
      | notANumber => exact .notANumber
      | zero => exact .finite hlog hlow
      | finite hlog' hlow' => exact plain_normalize _ (by omega)

/-- A sum is the signed zero only if its first part is. -/
theorem not_signedZero_add {x : Float} (h : ¬SignedZero x) (y : Float) : ¬SignedZero (x + y) :=
  (plain_add ((unpack_cases _).resolve_left h) (unpack_cases _)).unpack_pack

/-! ### Comparing -/

/-- What is smaller than a negative float is negative. -/
theorem lt_zero_of_lt_unpacked {a b : UnpackedFloat} (hb : b.lt (.zero .positive) = true)
    (h : a.lt b = true) : a.lt (.zero .positive) = true := by
  cases b with
  | infinity sign =>
    cases sign with
    | positive => cases hb
    | negative =>
      cases a with
      | infinity sign => cases sign <;> cases h
      | notANumber => cases h
      | zero sign => cases h
      | finite sign m e hm => cases h
  | notANumber => cases hb
  | zero sign => cases hb
  | finite sign m e hm =>
    cases sign with
    | positive => cases hb
    | negative =>
      cases a with
      | infinity sign =>
        cases sign with
        | positive => cases h
        | negative => rfl
      | notANumber => cases h
      | zero sign => cases h
      | finite sign m' e' hm' =>
        cases sign with
        | positive => cases h
        | negative => rfl

/-- Floats are compared by their parts. -/
theorem lt_iff_unpack {x y : Float} : x < y ↔ x.toModel.unpack.lt y.toModel.unpack = true :=
  decide_eq_true_iff

theorem lt_zero_of_lt {x y : Float} (hy : y < 0) (h : x < y) : x < 0 := by
  rw [lt_iff_unpack, unpack_zero] at hy ⊢
  exact lt_zero_of_lt_unpacked hy (lt_iff_unpack.mp h)

end MinerFleet.Decimal
