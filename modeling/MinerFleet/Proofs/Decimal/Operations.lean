/-
Operations of floats come to the nearest float.

* `Nearest.unpack_pack` — what is nearest to an amount stays so when it is packed;
* `Nearest.le` — larger amounts do not come to smaller floats;
* `nearest_mul`, `nearest_div` — products and quotients of floats that have all their bits;
* `nearest_ofScientific_whole`, `nearest_ofScientific_places` — floats that are written in digits.

The floats that are multiplied or divided have all their bits (`Normal`), and one of them is one at
least, so that nothing gets as small as the floats that have fewer. What gets too large is still a
finite float in parts, and becomes infinite where it is packed (`Nearest.infinite`).

A number with few digits is a whole one over a power of ten. Both are floats (`nearest_word`,
`normal_power`), so that it is rounded once only. A whole number with more digits is rounded with all
its bits.
-/
import MinerFleet.Proofs.Decimal.Nearest
import MinerFleet.Proofs.Decimal.Sum

namespace MinerFleet.Decimal

open Float.Model Float.Model.UnpackedFloat

variable {v w : ℚ}

/-! ### Packing -/

theorem Nearest.unpack_pack {x : UnpackedFloat} (h : Nearest v x) :
    Nearest v (Float.Model.pack x).unpack := by
  cases h with
  | zero hv hx =>
    rw [hx]
    exact .zero hv rfl
  | infinite hv hx hlarge =>
    rw [hx]
    exact .infinite hv rfl hlarge
  | normal hv hx hvalue =>
    obtain @⟨m, e, hm, hlog, hlow⟩ := hx
    by_cases hhigh : e < 972
    · rw [unpack_pack_of_bits .positive hm hlog hlow hhigh]
      exact .normal hv (.finite hlog hlow) hvalue
    · obtain ⟨-, hpack⟩ := (pack_finite .positive m e hm).resolve_right (by omega)
      rw [Decimal.unpack_pack, hpack]
      refine .infinite hv rfl ?_
      rw [← hvalue, partsValue, two_zpow_le_iff (by positivity), log_mul_zpow hm]
      omega

/-- How large floats get. -/
theorem partsValue_le (x : Float) :
    partsValue x.toModel.unpack ≤ ((2 ^ 53 - 1 : ℕ) : ℚ) * 2 ^ (971 : ℤ) := by
  have hpos : (0 : ℚ) ≤ ((2 ^ 53 - 1 : ℕ) : ℚ) * 2 ^ (971 : ℤ) := by positivity
  rcases unpack_cases x.toModel.toBits.toBitVec with h | h
  · exact (congrArg partsValue h).trans_le hpos
  · show partsValue (UnpackedFloat.unpack _ _) ≤ _
    generalize hu : UnpackedFloat.unpack Format.binary64 _ = parts at h ⊢
    cases h with
    | infinity => exact hpos
    | notANumber => exact hpos
    | zero => exact hpos
    | @finite sign m e hm hlog hlow =>
      have he := exponent_lt_of_unpack hu
      have hbits : m ≤ 2 ^ 53 - 1 := Nat.le_sub_one_of_lt ((Nat.log2_lt hm.ne').mp (by omega))
      exact mul_le_mul (Nat.cast_le.mpr hbits) (zpow_le_zpow_right₀ one_le_two (by omega))
        (by positivity) (by positivity)

theorem partsValue_lt (x : Float) : partsValue x.toModel.unpack < 2 ^ (1024 : ℤ) := by
  refine (partsValue_le x).trans_lt ?_
  calc ((2 ^ 53 - 1 : ℕ) : ℚ) * 2 ^ (971 : ℤ) < 2 ^ (53 : ℤ) * 2 ^ (971 : ℤ) := by
        gcongr
        norm_num
    _ = 2 ^ (1024 : ℤ) := (zpow_add₀ two_ne_zero 53 971).symm

/-! ### Comparing -/

theorem le_iff_unpack {x y : Float} : x ≤ y ↔ x.toModel.unpack.le y.toModel.unpack = true :=
  decide_eq_true_iff

theorem Normal.zero_le {x : UnpackedFloat} (h : Normal x) :
    (UnpackedFloat.zero .positive).le x = true := by
  cases h
  rfl

theorem Normal.zero_lt {x : UnpackedFloat} (h : Normal x) :
    (UnpackedFloat.zero .positive).lt x = true := by
  cases h
  rfl

theorem Normal.le_infinity {x : UnpackedFloat} (h : Normal x) :
    x.le (.infinity .positive) = true := by
  cases h
  rfl

theorem Normal.le {x y : UnpackedFloat} (hx : Normal x) (hy : Normal y)
    (h : partsValue x ≤ partsValue y) : x.le y = true := by
  obtain @⟨m, e, hm, hlog, -⟩ := hx
  obtain @⟨m', e', hm', hlog', -⟩ := hy
  rw [partsValue, partsValue] at h
  have hexp : e ≤ e' := by
    have := Int.log_mono_right (b := 2) (by positivity) h
    rw [log_mul_zpow hm, log_mul_zpow hm'] at this
    omega
  show ((compare e e').then (compare m m')).isLE = true
  rcases hexp.eq_or_lt with rfl | hlt
  · have hle : m ≤ m' := by
      have := le_of_mul_le_mul_right h (zpow_pos two_pos e)
      exact_mod_cast this
    rw [compare_eq_iff_eq.mpr rfl]
    exact Nat.isLE_compare.mpr hle
  · rw [compare_lt_iff_lt.mpr hlt]
    rfl

/-- Larger amounts do not come to smaller floats. -/
theorem Nearest.le {x y : Float} (hx : Nearest v x.toModel.unpack)
    (hy : Nearest w y.toModel.unpack) (h : v ≤ w) : x ≤ y := by
  rw [le_iff_unpack]
  cases hx with
  | zero hv hx =>
    rw [hx]
    cases hy with
    | zero hw hy => rw [hy]; rfl
    | infinite hw hy hlarge => rw [hy]; rfl
    | normal hw hy hvalue => exact hy.zero_le
  | normal hv hx hvalue =>
    cases hy with
    | zero hw hy => linarith
    | infinite hw hy hlarge =>
      rw [hy]
      exact hx.le_infinity
    | normal hw hy hvalue' =>
      refine hx.le hy ?_
      rw [hvalue, hvalue']
      exact nearestFloat_mono hv.le h
  | infinite hv hx hlarge =>
    cases hy with
    | zero hw hy => linarith
    | infinite hw hy hlarge' => rw [hx, hy]; rfl
    | normal hw hy hvalue =>
      have hbelow := partsValue_lt y
      rw [hvalue] at hbelow
      linarith [nearestFloat_mono hv.le h]

/-- A float that is nearest to a small amount is no infinity. -/
theorem Nearest.isFinite {x : UnpackedFloat} (h : Nearest v x)
    (hv : nearestFloat v < 2 ^ (1024 : ℤ)) : x.isFinite = true := by
  cases h with
  | zero hv hx =>
    rw [hx]
    rfl
  | normal hv hx hvalue =>
    cases hx
    rfl
  | infinite hpos hx hlarge => exact absurd hv (not_lt_of_ge hlarge)

theorem Nearest.isFinite_of_le {x : UnpackedFloat} (h : Nearest v x) (hv : 0 ≤ v)
    (hle : v ≤ 2 ^ (1023 : ℤ)) : x.isFinite = true :=
  h.isFinite ((nearestFloat_le_two_zpow hv hle).trans_lt
    (zpow_lt_zpow_right₀ one_lt_two (by decide)))

theorem Nearest.partsValue_eq {x : UnpackedFloat} (h : Nearest v x) (hx : x.isFinite = true) :
    partsValue x = nearestFloat v := by
  cases h with
  | zero hv hx =>
    rw [hx, hv, nearestFloat_zero]
    rfl
  | normal hv hx hvalue => exact hvalue
  | infinite hv hinfinite hlarge =>
    rw [hinfinite] at hx
    cases hx

theorem Nearest.normal_of_pos {x : UnpackedFloat} (h : Nearest v x) (hv : 0 < v)
    (hx : x.isFinite = true) : Normal x := by
  cases h with
  | zero hzero hx => exact absurd hzero hv.ne'
  | normal hv hx hvalue => exact hx
  | infinite hv hinfinite hlarge =>
    rw [hinfinite] at hx
    cases hx

/-! ### Products and quotients -/

/-- The exponent tells the size of a float that has all its bits. -/
theorem two_zpow_le_partsValue_iff {m : ℕ} {e k : ℤ} {hm : 0 < m} (hlog : m.log2 = 52) :
    (2 : ℚ) ^ k ≤ partsValue (.finite .positive m e hm) ↔ k ≤ 52 + e := by
  rw [partsValue, two_zpow_le_iff (by positivity), log_mul_zpow hm, hlog]
  rfl

theorem nearest_mul {x y : UnpackedFloat} (hx : Normal x) (hy : Normal y)
    (hone : 1 ≤ partsValue y) :
    Nearest (partsValue x * partsValue y) (UnpackedFloat.mul Format.binary64 x y) := by
  obtain @⟨m, e, hm, hlog, hlow⟩ := hx
  obtain @⟨m', e', hm', hlog', -⟩ := hy
  rw [← zpow_zero 2, two_zpow_le_partsValue_iff hlog'] at hone
  have hbits : 104 ≤ (m * m').log2 := by
    refine (Nat.le_log2 (Nat.mul_pos hm hm').ne').mpr ?_
    calc 2 ^ 104 = 2 ^ 52 * 2 ^ 52 := by norm_num
      _ ≤ m * m' := Nat.mul_le_mul ((Nat.le_log2 hm.ne').mp hlog.ge)
        ((Nat.le_log2 hm'.ne').mp hlog'.ge)
  have hrounded := nearest_roundWithAccuracy (e := e + e') Nat.one_pos (represents_whole (m * m'))
    (by omega) (by omega)
  have hvalue : ((m * m' : ℕ) : ℚ) / (1 : ℕ) * 2 ^ (e + e') = m * 2 ^ e * (m' * 2 ^ e') := by
    rw [zpow_add₀ two_ne_zero]
    push_cast
    ring
  rwa [hvalue] at hrounded

/-- Floats with all their bits are divided with 53 more. -/
theorem divCore_of_bits {m m' : ℕ} {e e' : ℤ} (hlog : m.log2 = 52) (hlog' : m'.log2 = 52)
    (hlow : -1074 ≤ e - e' - 53) : divCore Format.binary64 m e m' e' =
      (m <<< 53 / m', e - e' - 53, accuracyOfFraction (m <<< 53 % m') m') := by
  have htarget : min (e - e') (max (52 + 1 + e - (52 + 1 + e') - 53) (-1074)) = e - e' - 53 := by
    omega
  have hshift : (e - e' - (e - e' - 53)).toNat = 53 := by omega
  simp only [divCore, targetExponent_eq, totalExponent, hlog, hlog', Nat.cast_ofNat, htarget,
    hshift]

theorem nearest_div {x y : UnpackedFloat} (hx : Normal x) (hy : Normal y)
    (hone : 1 ≤ partsValue x) (hlarge : partsValue y < 2 ^ (100 : ℤ)) :
    Nearest (partsValue x / partsValue y) (UnpackedFloat.div Format.binary64 x y) := by
  obtain @⟨m, e, hm, hlog, hlow⟩ := hx
  obtain @⟨m', e', hm', hlog', -⟩ := hy
  rw [← zpow_zero 2, two_zpow_le_partsValue_iff hlog] at hone
  rw [← not_le, two_zpow_le_partsValue_iff hlog'] at hlarge
  have hbits : 52 ≤ (m <<< 53 / m').log2 := by
    have hm := (Nat.log2_eq_iff hm.ne').mp hlog
    have hm' := (Nat.log2_eq_iff hm'.ne').mp hlog'
    have hle : 2 ^ 52 ≤ m <<< 53 / m' := by
      rw [Nat.le_div_iff_mul_le (by omega), Nat.shiftLeft_eq]
      omega
    exact (Nat.le_log2 (by omega)).mpr hle
  have hrounded := nearest_roundWithAccuracy (e := e - e' - 53) hm' (represents_div (m <<< 53) hm')
    hbits (by omega)
  have hvalue : ((m <<< 53 : ℕ) : ℚ) / m' * 2 ^ (e - e' - 53) = m * 2 ^ e / (m' * 2 ^ e') := by
    rw [Nat.shiftLeft_eq, zpow_sub₀ two_ne_zero, zpow_sub₀ two_ne_zero]
    push_cast
    field_simp
  rw [hvalue] at hrounded
  simp only [UnpackedFloat.div, divCore_of_bits hlog hlog' (show -1074 ≤ e - e' - 53 by omega)]
  exact hrounded

/-- A product with a float that is rounded first. -/
theorem Nearest.mul {x y : UnpackedFloat} (h : Nearest v x) (hx : x.isFinite = true)
    (hy : Normal y) (hone : 1 ≤ partsValue y) :
    Nearest (nearestFloat v * partsValue y) (UnpackedFloat.mul Format.binary64 x y) := by
  rw [← h.partsValue_eq hx]
  cases h with
  | zero hv hzero =>
    rw [hzero]
    obtain @⟨m, e, hm, -, -⟩ := hy
    exact .zero (zero_mul _) rfl
  | normal hv hnormal hvalue => exact nearest_mul hnormal hy hone
  | infinite hv hinfinite hlarge =>
    rw [hinfinite] at hx
    cases hx

/-! ### Decimals -/

theorem log2_shiftLeft {n : ℕ} (hn : 0 < n) (shift : ℕ) :
    (n <<< shift).log2 = n.log2 + shift := by
  have hlow := Nat.log2_self_le hn.ne'
  have hhigh := Nat.lt_log2_self (n := n)
  rw [Nat.shiftLeft_eq, Nat.log2_eq_iff (by positivity), Nat.pow_add, Nat.add_right_comm,
    Nat.pow_add]
  exact ⟨Nat.mul_le_mul_right _ hlow, Nat.mul_lt_mul_of_pos_right hhigh (Nat.two_pow_pos shift)⟩

/-- A whole number is rounded with all its bits. -/
theorem nearest_shiftLeft {n shift : ℕ} {e : ℤ} (hpos : 0 < n) (hbits : 52 ≤ n.log2 + shift)
    (he : e = -(shift : ℤ)) :
    Nearest n (roundWithAccuracy Format.binary64 .positive (n <<< shift) e .exact) := by
  have hlog := log2_shiftLeft hpos shift
  have hrounded := nearest_roundWithAccuracy (e := e) Nat.one_pos (represents_whole (n <<< shift))
    (by omega) (by omega)
  have hvalue : ((n <<< shift : ℕ) : ℚ) / (1 : ℕ) * 2 ^ e = n := by
    rw [he, Nat.shiftLeft_eq, zpow_neg, zpow_natCast]
    push_cast
    field_simp
  rwa [hvalue] at hrounded

/-- A whole number that has not too many bits becomes the float that it is. -/
theorem nearest_word {n : ℕ} (hpos : 0 < n) (hn : n < 2 ^ 53) :
    Nearest n n.toUInt64.toFloat.toModel.unpack := by
  have hword : n.toUInt64.toNat = n := by
    rw [Nat.toUInt64, UInt64.toNat_ofNat', Nat.mod_eq_of_lt (Nat.lt_trans hn (by decide))]
  have hlog : n.log2 ≤ 52 := Nat.le_of_lt_succ ((Nat.log2_lt hpos.ne').mpr hn)
  have htarget : (0 - max ((n.log2 : ℤ) + 1 + 0 - 53) (-1074)).toNat = 52 - n.log2 := by omega
  refine Nearest.unpack_pack (x := UnpackedFloat.normalize Format.binary64 _ 0 .positive) ?_
  rw [hword, UnpackedFloat.normalize, Int.compare_eq_gt.mpr (by omega)]
  simp only [UnpackedFloat.round, decreaseExponent, targetExponent_eq, totalExponent,
    Int.toNat_natCast, htarget]
  exact nearest_shiftLeft hpos (by omega) (zero_sub _)

/-- The powers of ten up to `10 ^ 22` are floats. -/
theorem normal_power (k : Fin 23) :
    Normal (Float.exactlyRepresentablePowersOfTen[k]).toModel.unpack ∧
      partsValue (Float.exactlyRepresentablePowersOfTen[k]).toModel.unpack = 10 ^ k.val := by
  have hnormal : ∀ k : Fin 23,
      Normal (Float.exactlyRepresentablePowersOfTen[k]).toModel.unpack := by
    decide +kernel
  have hsize : ∀ k : Fin 23,
      (Magnitude.sizeOf (Float.exactlyRepresentablePowersOfTen[k])).num =
        10 ^ k.val * (Magnitude.sizeOf (Float.exactlyRepresentablePowersOfTen[k])).den := by
    decide +kernel
  refine ⟨hnormal k, ?_⟩
  rw [← value_sizeOf, Quotient.value_eq_natCast_iff.mpr (hsize k)]
  push_cast
  rfl

theorem Nearest.normal_natCast {x : UnpackedFloat} {n : ℕ} (h : Nearest n x) (hpos : 0 < n)
    (hn : n < 2 ^ 53) : Normal x ∧ partsValue x = n := by
  have hbound : (n : ℚ) ≤ 2 ^ (1023 : ℤ) := by
    have hn : (n : ℚ) ≤ 2 ^ (53 : ℤ) := by exact_mod_cast hn.le
    exact hn.trans (zpow_le_zpow_right₀ one_le_two (by omega))
  have hfinite := h.isFinite_of_le (Nat.cast_nonneg n) hbound
  refine ⟨h.normal_of_pos (Nat.cast_pos.mpr hpos) hfinite, (h.partsValue_eq hfinite).trans ?_⟩
  have := nearestFloat_of_bits hpos (Nat.le_of_lt_succ ((Nat.log2_lt hpos.ne').mpr hn)) 0
  rwa [zpow_zero, mul_one] at this

/-- A number with few digits behind the point becomes the nearest float. -/
theorem nearest_ofScientific_places {n places : ℕ} (hpos : 0 < n) (hn : n < 2 ^ 53)
    (hp : places ≤ 22) :
    Nearest (n / 10 ^ places) (Float.ofScientific n true places).toModel.unpack := by
  obtain ⟨hword, hvalue⟩ := (nearest_word hpos hn).normal_natCast hpos hn
  obtain ⟨hpower, hten⟩ := normal_power ⟨places, Nat.lt_succ_of_le hp⟩
  rw [Float.ofScientific, dif_pos ⟨hn, hp⟩, if_pos rfl]
  have hlarge : (10 : ℚ) ^ places < 2 ^ (100 : ℤ) :=
    (pow_le_pow_right₀ (by norm_num) hp).trans_lt (by norm_num)
  have hquotient := nearest_div hword hpower
    (by rw [hvalue]; exact Nat.one_le_cast.mpr hpos) (hten.trans_lt hlarge)
  rw [hvalue, hten] at hquotient
  exact hquotient.unpack_pack

/-- A whole number becomes the nearest float. -/
theorem nearest_ofScientific_whole {n : ℕ} (hpos : 0 < n) :
    Nearest n (Float.ofScientific n false 0).toModel.unpack := by
  rw [Float.ofScientific]
  split
  · -- What fits into the digits of a float is converted and multiplied by one.
    rename_i hsmall
    obtain ⟨hword, hvalue⟩ := (nearest_word hpos hsmall.1).normal_natCast hpos hsmall.1
    obtain ⟨hpower, hten⟩ := normal_power 0
    have hten : partsValue _ = 1 := hten.trans (pow_zero 10)
    have hproduct := nearest_mul hword hpower hten.ge
    rw [hvalue, hten, mul_one] at hproduct
    exact hproduct.unpack_pack
  · show Nearest _ (Float.Model.pack (UnpackedFloat.ofScientific Format.binary64 n 0)).unpack
    refine Nearest.unpack_pack ?_
    have hmax : (2 : Int) ^ Format.binary64.exponentBits = 2048 := rfl
    rw [UnpackedFloat.ofScientific, dif_neg hpos.ne', if_neg (by decide), if_neg (by omega),
      if_pos (by decide)]
    have hone : n <<< 53 * 10 ^ 0 = n <<< 53 := Nat.mul_one _
    have hrounded : Nearest n
        (roundWithAccuracy Format.binary64 .positive (n <<< 53) (-53 + 0) .exact) :=
      nearest_shiftLeft hpos (by omega) rfl
    rw [← hone] at hrounded
    exact hrounded

end MinerFleet.Decimal
