/-
Amounts with a unit letter say what they show.

* `step` — the power of ten to a multiple of which an amount is shown;
* `abs_roundedTo_step_sub_le`, `roundedTo_step_mono` — such multiples are close, and in order;
* `Says` — what a text says;
* `says_formatExact` — an amount is shown as the multiple that is nearest to it.

The writer looks for a unit, then for a number of places, and begins again with the next unit where
rounding makes a fourth digit of three. All of it comes to rounding to three digits (`step_eq`): a
whole number with one or two digits needs no places (`roundedTo_step`), and a thousand of a unit is
one of the next (`Fits.roundedTo_of_thousand`). So the steps get coarser at powers of ten only, and
these are not passed by rounding from either side. Below one the step is a millionth, and in the
largest unit all digits before the point are shown.
-/
import MinerFleet.Proofs.Magnitude.Reading

namespace MinerFleet

open Decimal

theorem Scale.power_le (scale : Scale) : scale.power ≤ 18 := by
  cases scale <;> decide

namespace Magnitude

/-! ### Units -/

theorem value_in_unit (q : Quotient) (p : ℕ) : (q.shift (-(p : ℤ))).value = q.value / 10 ^ p := by
  rw [Quotient.value_shift, zpow_neg, zpow_natCast, div_eq_mul_inv]

/-- Units in a row, up to the largest one. -/
structure Ladder (scales : List Scale) : Prop where
  chain : scales.IsChain fun a b => b.power = a.power + 3
  last : scales.getLast? = some .exa

theorem Ladder.tail {scale next : Scale} {more : List Scale}
    (h : Ladder (scale :: next :: more)) : Ladder (next :: more) where
  chain := (List.isChain_cons_cons.mp h.chain).2
  last := by
    rw [← h.last, List.getLast?_cons_cons]

/-- The largest unit that fits into an amount is found, and those that are larger. -/
theorem scalesFrom_cases {q : Quotient} {scales : List Scale} (h : Ladder scales)
    (hhead : ∀ scale ∈ scales.head?, (10 : ℚ) ^ scale.power ≤ q.value) :
    ∃ scale larger, scalesFrom q scales = scale :: larger ∧ Ladder (scale :: larger) ∧
      (10 : ℚ) ^ scale.power ≤ q.value ∧ ∀ next ∈ larger.head?, q.value < 10 ^ next.power := by
  induction scales with
  | nil => cases h.last
  | cons scale larger ih =>
    have hscale := hhead scale rfl
    cases larger with
    | nil => exact ⟨scale, [], rfl, h, hscale, nofun⟩
    | cons next more =>
      have hfits : Nat.pow 10 next.power * q.den ≤ q.num ↔ (10 : ℚ) ^ next.power ≤ q.value := by
        have := Quotient.le_value_iff (q := q) (n := 10 ^ next.power)
        rw [Nat.cast_pow, Nat.cast_ofNat] at this
        exact this.symm
      by_cases hnext : Nat.pow 10 next.power * q.den ≤ q.num
      · rw [scalesFrom, if_pos hnext]
        refine ih h.tail fun scale hscale => ?_
        rw [← Option.some.inj hscale]
        exact hfits.mp hnext
      · rw [scalesFrom, if_neg hnext]
        refine ⟨scale, next :: more, rfl, h, hscale, fun scale hscale => ?_⟩
        rw [← Option.some.inj hscale]
        exact not_le.mp (mt hfits.mpr hnext)

theorem scalesFrom_all {q : Quotient} (h : 1 ≤ q.value) :
    ∃ scale larger, scalesFrom q Scale.all = scale :: larger ∧ Ladder (scale :: larger) ∧
      (10 : ℚ) ^ scale.power ≤ q.value ∧ ∀ next ∈ larger.head?, q.value < 10 ^ next.power := by
  refine scalesFrom_cases ⟨by decide, rfl⟩ fun scale hscale => ?_
  rw [← Option.some.inj hscale]
  exact h

/-! ### Places -/

theorem mod_eq_zero_iff {q : Quotient} : q.num % q.den = 0 ↔ ∃ n : ℕ, q.value = n := by
  constructor
  · intro h
    refine ⟨q.num / q.den, Quotient.value_eq_natCast_iff.mpr ?_⟩
    exact (Nat.div_mul_cancel (Nat.dvd_of_mod_eq_zero h)).symm
  · rintro ⟨n, h⟩
    rw [Quotient.value_eq_natCast_iff.mp h, Nat.mul_mod_left]

/-- How many places an amount needs to be shown in three digits. -/
def placesFor (v : ℚ) : ℕ :=
  if 100 ≤ v then 0 else if 10 ≤ v then 1 else 2

theorem places_of_whole {q : Quotient} (h : ∃ n : ℕ, q.value = n) : places q = 0 :=
  if_pos (.inr (mod_eq_zero_iff.mpr h))

theorem places_of_not_whole {q : Quotient} (h : ¬∃ n : ℕ, q.value = n) :
    places q = placesFor q.value := by
  have hundred := Quotient.le_value_iff (q := q) (n := 100)
  have hten := Quotient.le_value_iff (q := q) (n := 10)
  simp only [places, placesFor, mod_eq_zero_iff, h, or_false, ← hundred, ← hten, Nat.cast_ofNat]

/-- There are places for amounts below a hundred only. -/
theorem places_cases (q : Quotient) : places q ≤ 2 ∧ (places q = 0 ∨ q.value < 100) := by
  by_cases h : ∃ n : ℕ, q.value = n
  · rw [places_of_whole h]
    exact ⟨by decide, .inl rfl⟩
  · rw [places_of_not_whole h, placesFor]
    split_ifs with hundred
    · exact ⟨by decide, .inl rfl⟩
    · exact ⟨by decide, .inr (not_le.mp hundred)⟩
    · exact ⟨by decide, .inr (not_le.mp hundred)⟩

/-! ### Steps -/

/-- The power of ten to a multiple of which an amount is shown: a millionth below one, from there on
as much as leaves three digits, and never more than the largest unit. -/
def step (v : ℚ) : ℤ :=
  if v < 1 then -6 else min (Int.log 10 v) 20 - 2

theorem zpow_le_iff {v : ℚ} (hv : 0 < v) {x : ℤ} : (10 : ℚ) ^ x ≤ v ↔ x ≤ Int.log 10 v := by
  have := Int.zpow_le_iff_le_log (b := 10) (by decide) (x := x) hv
  rwa [Nat.cast_ofNat] at this

/-- In the unit of an amount, three digits need a number of places that depends on its size. -/
theorem step_eq {v : ℚ} {p : ℕ} (hp : p ≤ 18) (hlow : 10 ^ p ≤ v)
    (hhigh : p = 18 ∨ v < 10 ^ (p + 3)) : step v = p - placesFor (v / 10 ^ p) := by
  have hten : (0 : ℚ) < 10 ^ p := by positivity
  have hv : 1 ≤ v := (one_le_pow₀ (by norm_num)).trans hlow
  have hpos : 0 < v := by linarith
  have hlog (k : ℕ) : (10 : ℚ) ^ k ≤ v / 10 ^ p ↔ ((p + k : ℕ) : ℤ) ≤ Int.log 10 v := by
    rw [← zpow_le_iff hpos, le_div_iff₀ hten, zpow_natCast, ← pow_add, Nat.add_comm]
  have hlow : (p : ℤ) ≤ Int.log 10 v := (zpow_le_iff hpos).mp (by rwa [zpow_natCast])
  have hhigh : p = 18 ∨ Int.log 10 v < p + 3 := by
    refine hhigh.imp_right fun h => lt_of_not_ge fun hle => not_le.mpr h ?_
    have := (zpow_le_iff hpos).mpr hle
    rwa [← Nat.cast_ofNat (n := 3), ← Nat.cast_add, zpow_natCast] at this
  have hundred : 100 ≤ v / 10 ^ p ↔ ((p + 2 : ℕ) : ℤ) ≤ Int.log 10 v := by
    rw [← hlog 2]
    norm_num
  have hten : 10 ≤ v / 10 ^ p ↔ ((p + 1 : ℕ) : ℤ) ≤ Int.log 10 v := by
    rw [← hlog 1]
    norm_num
  rw [step, if_neg (not_lt.mpr hv), placesFor]
  simp only [hundred, hten]
  split_ifs <;> omega

/-- A whole number of units is shown exactly. -/
theorem roundedTo_step {q : Quotient} {p : ℕ} (hp : p ≤ 18) (hlow : 10 ^ p ≤ q.value)
    (hhigh : p = 18 ∨ q.value < 10 ^ (p + 3)) :
    q.roundedTo (p - places (q.shift (-(p : ℤ)))) = q.roundedTo (step q.value) := by
  have hvalue := value_in_unit q p
  rw [step_eq hp hlow hhigh, ← hvalue]
  by_cases h : ∃ n : ℕ, (q.shift (-(p : ℤ))).value = n
  · rw [places_of_whole h]
    obtain ⟨n, hn⟩ := h
    have hq : q.value = n * 10 ^ p := by
      rw [← hn, hvalue, div_mul_cancel₀ _ (by positivity)]
    have hexact (k : ℕ) : q.roundedTo (p - k) = q.value := by
      refine Quotient.roundedTo_eq_value (n := n * 10 ^ k) ?_
      rw [hq, zpow_sub₀ (by norm_num), zpow_natCast, zpow_natCast]
      push_cast
      field_simp
    rw [hexact, hexact]
  · rw [places_of_not_whole h]

theorem zpow_step_le {v : ℚ} (hv : 1 ≤ v) : (10 : ℚ) ^ (step v + 2) ≤ v := by
  rw [zpow_le_iff (by linarith), step, if_neg (not_lt.mpr hv)]
  omega

/-- From one on an amount is shown with an error of less than half a percent. -/
theorem abs_roundedTo_step_sub_le {q : Quotient} (h : 1 ≤ q.value) :
    |q.roundedTo (step q.value) - q.value| ≤ q.value / 201 := by
  have hstep := zpow_step_le h
  have hten : (0 : ℚ) < 10 ^ step q.value := zpow_pos (by norm_num) _
  have herror := q.abs_roundedTo_sub_le (step q.value)
  have hleast := Quotient.pow_le_roundedTo (e := step q.value) (by omega) hstep
  rw [zpow_add₀ (by norm_num)] at hstep hleast
  rw [Quotient.roundedTo] at herror hleast ⊢
  generalize (q.shift _).round = digits at herror hleast ⊢
  generalize (10 : ℚ) ^ step q.value = unit at *
  norm_num at hstep hleast
  rw [abs_le] at herror ⊢
  by_cases hhalf : q.value < 201 / 2 * unit
  · -- A hundred units and less than a half become a hundred.
    have hdigits : digits ≤ 100 := by
      by_contra hmore
      have hmore : (101 : ℚ) ≤ digits := by exact_mod_cast not_le.mp hmore
      have : 101 * unit ≤ digits * unit := by gcongr
      linarith
    have : (digits : ℚ) * unit ≤ 100 * unit := by
      gcongr
      exact_mod_cast hdigits
    constructor <;> linarith
  · constructor <;> linarith

/-- A larger amount is not shown as a smaller one. -/
theorem roundedTo_step_mono {v w : Quotient} (h : v.value ≤ w.value) :
    v.roundedTo (step v.value) ≤ w.roundedTo (step w.value) := by
  rcases eq_or_ne (step v.value) (step w.value) with heq | hne
  · rw [heq]
    exact Quotient.roundedTo_mono h _
  · -- Between two steps there is a power of ten, which none of both amounts is rounded beyond.
    have hw : 1 ≤ w.value := by
      by_contra hw
      rw [step, step, if_pos (not_le.mp hw), if_pos (lt_of_le_of_lt h (not_le.mp hw))] at hne
      exact hne rfl
    suffices hv : step v.value ≤ step w.value + 2 ∧ v.value ≤ 10 ^ (step w.value + 2) from
      (Quotient.roundedTo_le_pow hv.1 hv.2).trans
        (Quotient.pow_le_roundedTo (by omega) (zpow_step_le hw))
    have hlogw : 0 ≤ Int.log 10 w.value := (zpow_le_iff (by linarith)).mp (by simpa using hw)
    by_cases hv : v.value < 1
    · refine ⟨?_, hv.le.trans (one_le_zpow₀ (by norm_num) ?_)⟩
      all_goals
        simp only [step, if_pos hv, if_neg (not_lt.mpr hw)]
        omega
    · have hlog : Int.log 10 v.value ≤ Int.log 10 w.value :=
        Int.log_mono_right (by linarith) h
      rw [step, step, if_neg hv, if_neg (not_lt.mpr hw)] at hne ⊢
      refine ⟨by omega, (not_le.mp (mt (zpow_le_iff (by linarith)).mp ?_)).le⟩
      omega

/-! ### Texts -/

/-- What a text says: digits with some places behind the point, in a unit. The number in front of the
unit is one or more, if there is a letter, and below a thousand, unless this is the largest unit.
There are few digits then, and otherwise no places. -/
structure Says (s : String) (v : ℚ) (n : Numeral) (scale : Scale) : Prop where
  read : read? s = some (n, scale)
  value : n.value * 10 ^ scale.power = v
  least : scale ≠ .one → 1 ≤ n.value
  short : scale ≠ .exa → n.value < 1000
  room : n.negative = false ∧ ∃ k ≤ 6, n.exponent = -((k : ℕ) : ℤ) ∧
    (n.digits ≤ 10 ^ 6 ∨ k = 0 ∧ scale = .exa)

theorem value_mk (digits k : ℕ) :
    (⟨false, digits, -(k : ℤ)⟩ : Numeral).value = digits / 10 ^ k := by
  rw [Numeral.value, if_neg Bool.false_ne_true, one_mul, zpow_neg, zpow_natCast, div_eq_mul_inv]

/-- The number in front of a unit. -/
theorem value_shown (q : Quotient) (k p : ℕ) :
    (⟨false, ((q.shift (-(p : ℤ))).shift k).round, -(k : ℤ)⟩ : Numeral).value * 10 ^ p =
      q.roundedTo (p - k) := by
  have hround : ((q.shift (-(p : ℤ))).shift k).round = (q.shift (-(p - k : ℤ))).round := by
    refine Quotient.round_congr ?_
    rw [Quotient.value_shift, Quotient.value_shift, Quotient.value_shift, mul_assoc,
      ← zpow_add₀ (by norm_num), neg_sub, neg_add_eq_sub]
  rw [value_mk, hround, Quotient.roundedTo, zpow_sub₀ (by norm_num), zpow_natCast, zpow_natCast,
    div_mul_eq_mul_div, mul_div_assoc]

/-- The unit fits into an amount, and a larger one does not. -/
structure Fits (q : Quotient) (scale : Scale) : Prop where
  low : (10 : ℚ) ^ scale.power ≤ q.value
  high : scale = .exa ∨ q.value < 10 ^ (scale.power + 3)

section

variable {q : Quotient} {scale : Scale}

/-- An amount in a unit. -/
abbrev inUnit (q : Quotient) (scale : Scale) : Quotient :=
  q.shift (-(scale.power : ℤ))

/-- The digits of an amount in a unit. -/
def digitsIn (q : Quotient) (scale : Scale) : ℕ :=
  ((inUnit q scale).shift (places (inUnit q scale))).round

theorem Fits.value_shown (h : Fits q scale) :
    (⟨false, digitsIn q scale, -(places (inUnit q scale) : ℤ)⟩ : Numeral).value *
      10 ^ scale.power = q.roundedTo (step q.value) :=
  (Magnitude.value_shown q (places (inUnit q scale)) scale.power).trans
    (roundedTo_step scale.power_le h.low (h.high.imp_left (congrArg Scale.power)))

theorem Fits.step_le (h : Fits q scale) : step q.value ≤ scale.power := by
  rw [step_eq scale.power_le h.low (h.high.imp_left (congrArg Scale.power))]
  omega

/-- Below a hundred there are at most three digits in front of the point, and as many as places
behind it. -/
theorem digitsIn_le (h : (inUnit q scale).value < 100) :
    digitsIn q scale ≤ 100 * 10 ^ places (inUnit q scale) := by
  have hround (n : ℕ) : (Quotient.ofNat n).round = n :=
    Quotient.round_of_value_eq (Quotient.value_ofNat n)
  refine (Quotient.round_mono ?_).trans_eq (hround _)
  rw [Quotient.value_shift, zpow_natCast, Quotient.value_ofNat, Nat.cast_mul, Nat.cast_pow,
    Nat.cast_ofNat, Nat.cast_ofNat]
  gcongr

/-- Without a fourth digit in front of the point, an amount is shown in its unit. -/
theorem Fits.says_in_unit (h : Fits q scale)
    (hround : scale ≠ .exa → digitsIn q scale < 1000 * 10 ^ places (inUnit q scale)) :
    ∃ n, Says ((inUnit q scale).fixed (places (inUnit q scale)) ++ scale.letter)
      (q.roundedTo (step q.value)) n scale ∧ 1 ≤ n.value := by
  have hten : (0 : ℚ) < 10 ^ scale.power := by positivity
  obtain ⟨hplaces, hsmall⟩ := places_cases (inUnit q scale)
  have hone : 1 ≤ (⟨false, digitsIn q scale, -(places (inUnit q scale) : ℤ)⟩ : Numeral).value := by
    have hle : (10 : ℚ) ^ scale.power ≤ q.roundedTo (step q.value) := by
      have hpow := h.low
      rw [← zpow_natCast] at hpow ⊢
      exact Quotient.pow_le_roundedTo h.step_le hpow
    rw [← h.value_shown] at hle
    exact (le_mul_iff_one_le_left hten).mp hle
  refine ⟨⟨false, digitsIn q scale, -(places (inUnit q scale) : ℤ)⟩,
    ⟨read?_fixed _ _ scale, h.value_shown, fun _ => hone, fun hexa => ?_, rfl, _, by omega, rfl, ?_⟩,
    hone⟩
  · rw [value_mk, div_lt_iff₀ (by positivity)]
    exact_mod_cast hround hexa
  · rcases hsmall with hnone | hsmall
    · by_cases hexa : scale = .exa
      · exact .inr ⟨hnone, hexa⟩
      · have := hround hexa
        rw [hnone] at this
        exact .inl (this.le.trans (by decide))
    · have hpow : 10 ^ places (inUnit q scale) ≤ 10 ^ 2 :=
        Nat.pow_le_pow_right (by decide) hplaces
      exact .inl ((digitsIn_le hsmall).trans (by omega))

/-- A thousand of a unit is one of the next. -/
theorem Fits.roundedTo_of_thousand (h : Fits q scale) {next : Scale}
    (hnext : next.power = scale.power + 3) (hhigh : q.value < 10 ^ next.power)
    (hround : 1000 * 10 ^ places (inUnit q scale) ≤ digitsIn q scale) :
    q.roundedTo (step q.value) = 10 ^ next.power := by
  refine le_antisymm ?_ ?_
  · have hstep := h.step_le
    rw [← zpow_natCast] at hhigh ⊢
    exact Quotient.roundedTo_le_pow (by omega) hhigh.le
  · have hdigits : (1000 : ℚ) ≤ digitsIn q scale / 10 ^ places (inUnit q scale) := by
      rw [le_div_iff₀ (by positivity)]
      exact_mod_cast hround
    rw [← h.value_shown, value_mk, hnext, pow_add, mul_comm]
    gcongr
    linarith

/-- Where rounding makes a thousand of a unit, there is almost one of the next. -/
theorem almost_next (h : 1000 * 10 ^ places (inUnit q scale) ≤ digitsIn q scale) :
    999 * 10 ^ (scale.power + 3) ≤ 1000 * q.value := by
  have hrounded := ((inUnit q scale).shift (places (inUnit q scale))).abs_round_sub_le
  rw [← digitsIn, Quotient.value_shift, zpow_natCast, value_in_unit, abs_le] at hrounded
  have h : (1000 : ℚ) * 10 ^ places (inUnit q scale) ≤ digitsIn q scale := by exact_mod_cast h
  have hone : (1 : ℚ) ≤ 10 ^ places (inUnit q scale) := one_le_pow₀ (by norm_num)
  have hunit : 999 ≤ q.value / 10 ^ scale.power := by
    by_contra hless
    have : q.value / 10 ^ scale.power * 10 ^ places (inUnit q scale) ≤
        999 * 10 ^ places (inUnit q scale) := by
      gcongr
      exact (not_le.mp hless).le
    linarith
  rw [le_div_iff₀ (by positivity)] at hunit
  rw [pow_add]
  linarith

/-- Almost one of a unit is shown as one, in two places. -/
theorem digitsIn_of_almost_one (hlow : 999 * 10 ^ scale.power ≤ 1000 * q.value)
    (hhigh : q.value < 10 ^ scale.power) :
    places (inUnit q scale) = 2 ∧ digitsIn q scale = 100 := by
  have hten : (0 : ℚ) < 10 ^ scale.power := by positivity
  have hlow : 999 / 1000 ≤ (inUnit q scale).value := by
    rw [value_in_unit, le_div_iff₀ hten]
    linarith
  have hhigh : (inUnit q scale).value < 1 := by
    rwa [value_in_unit, div_lt_one hten]
  have hplaces : places (inUnit q scale) = 2 := by
    rw [places_of_not_whole, placesFor, if_neg (by linarith), if_neg (by linarith)]
    rintro ⟨n, hn⟩
    rw [hn] at hlow hhigh
    have hn : n < 1 := by exact_mod_cast hhigh
    rw [Nat.lt_one_iff.mp hn] at hlow
    norm_num at hlow
  have hrounded := ((inUnit q scale).shift (places (inUnit q scale))).abs_round_sub_le
  rw [← digitsIn, hplaces, Quotient.value_shift, abs_le] at hrounded
  norm_num at hrounded
  have hmore : (99 : ℚ) < digitsIn q scale := by linarith
  have hless : (digitsIn q scale : ℚ) < 101 := by linarith
  have hmore : 99 < digitsIn q scale := by exact_mod_cast hmore
  have hless : digitsIn q scale < 101 := by exact_mod_cast hless
  exact ⟨hplaces, by omega⟩

theorem formatIn_cons (larger : List Scale) :
    formatIn (inUnit q) (scale :: larger) =
      if larger ≠ [] ∧ 1000 * 10 ^ places (inUnit q scale) ≤ digitsIn q scale then
        formatIn (inUnit q) larger
      else (inUnit q scale).fixed (places (inUnit q scale)) ++ scale.letter :=
  rfl

theorem value_hundred : (⟨false, 100, -2⟩ : Numeral).value = 1 := by
  have := value_mk 100 2
  norm_num at this
  exact this

/-- A thousand of a unit is shown as one of the next. -/
theorem Fits.says_in_next (h : Fits q scale) {next : Scale} (hnext : next.power = scale.power + 3)
    (hhigh : q.value < 10 ^ next.power) (more : List Scale)
    (hround : 1000 * 10 ^ places (inUnit q scale) ≤ digitsIn q scale) :
    Says (formatIn (inUnit q) (next :: more)) (q.roundedTo (step q.value)) ⟨false, 100, -2⟩
      next := by
  obtain ⟨hplaces, hdigits⟩ := digitsIn_of_almost_one (hnext ▸ almost_next hround) hhigh
  have hread := read?_fixed (inUnit q next) (places (inUnit q next)) next
  rw [← digitsIn, hdigits, hplaces] at hread
  rw [formatIn_cons, hplaces, hdigits, if_neg (by omega)]
  refine ⟨hread, ?_, fun _ => value_hundred.ge, fun _ => ?_, rfl, 2, by decide, rfl,
    .inl (by decide)⟩
  · rw [h.roundedTo_of_thousand hnext hhigh hround, value_hundred, one_mul]
  · rw [value_hundred]
    norm_num

/-- A unit that fits is shown, or the next one where a thousand of the unit would be. -/
theorem says_formatIn {larger : List Scale} (h : Ladder (scale :: larger))
    (hlow : (10 : ℚ) ^ scale.power ≤ q.value)
    (hhigh : ∀ next ∈ larger.head?, q.value < 10 ^ next.power) :
    ∃ n shown, Says (formatIn (inUnit q) (scale :: larger)) (q.roundedTo (step q.value)) n shown ∧
      1 ≤ n.value := by
  rw [formatIn_cons]
  cases larger with
  | nil =>
    have hexa : scale = .exa := Option.some.inj h.last
    rw [if_neg fun h => h.1 rfl]
    obtain ⟨n, hn⟩ := Fits.says_in_unit ⟨hlow, .inl hexa⟩ (absurd hexa)
    exact ⟨n, scale, hn⟩
  | cons next more =>
    have hnext := (List.isChain_cons_cons.mp h.chain).1
    have hhigh := hhigh next rfl
    have hfits : Fits q scale := ⟨hlow, .inr (hnext ▸ hhigh)⟩
    by_cases hround : 1000 * 10 ^ places (inUnit q scale) ≤ digitsIn q scale
    · rw [if_pos ⟨List.cons_ne_nil _ _, hround⟩]
      exact ⟨_, next, hfits.says_in_next hnext hhigh more hround, value_hundred.ge⟩
    · rw [if_neg fun h => hround h.2]
      obtain ⟨n, hn⟩ := hfits.says_in_unit fun _ => not_le.mp hround
      exact ⟨n, scale, hn⟩

end

/-- Below one an amount is shown as a multiple of a millionth. -/
theorem says_formatSmall {q : Quotient} (h : q.value < 1) :
    ∃ n, Says (formatSmall q) (q.roundedTo (step q.value)) n .one := by
  obtain ⟨digits, k, zeros, hread, hk, hround⟩ := read?_formatSmall q
  have hpos := Nat.pow_pos (n := zeros) (by decide : 0 < 10)
  have hmillion : digits * 10 ^ zeros ≤ 10 ^ (k + zeros) := by
    have hlarge : (q.shift 6).round ≤ ((Quotient.ofNat 1).shift 6).round := by
      refine Quotient.round_mono ?_
      rw [Quotient.value_shift, Quotient.value_shift_one]
      exact mul_le_of_le_one_left (by norm_num) h.le
    rw [hround, hk]
    exact hlarge.trans_eq (by decide)
  refine ⟨_, hread, ?_, absurd rfl, fun _ => ?_, rfl, k, by omega, rfl, .inl ?_⟩
  · have hshift : q.roundedTo (-6) = (q.shift 6).round * 10 ^ (-6 : ℤ) := rfl
    have hsix : (6 : ℤ) = k + zeros := by omega
    rw [step, if_pos h, hshift, value_mk, ← hround, Scale.power, pow_zero, mul_one, zpow_neg,
      hsix, zpow_add₀ (by norm_num), zpow_natCast, zpow_natCast]
    push_cast
    field_simp
  · have hle : digits ≤ 10 ^ k := by
      rw [Nat.pow_add] at hmillion
      exact Nat.le_of_mul_le_mul_right hmillion hpos
    rw [value_mk, div_lt_iff₀ (by positivity)]
    have : (digits : ℚ) ≤ 10 ^ k := by exact_mod_cast hle
    have : (0 : ℚ) < 10 ^ k := by positivity
    linarith
  · rw [hk] at hmillion
    exact (Nat.le_mul_of_pos_right _ hpos).trans hmillion

theorem says_zero : Says "0" 0 ⟨false, 0, 0⟩ .one := by
  have hvalue : (⟨false, 0, 0⟩ : Numeral).value = 0 := by
    rw [Numeral.value, Nat.cast_zero, mul_zero, zero_mul]
  refine ⟨read?_fixed (.ofNat 0) 0 .one, ?_, absurd rfl, fun _ => ?_, rfl, 0, by decide, rfl,
    .inl (by decide)⟩
  · rw [hvalue, zero_mul]
  · rw [hvalue]
    norm_num

/-- An amount is shown as the multiple that is nearest to it. -/
theorem says_formatExact (q : Quotient) :
    ∃ n scale, Says (formatExact q) (q.roundedTo (step q.value)) n scale ∧
      (1 ≤ q.value → 1 ≤ n.value) := by
  rw [formatExact]
  by_cases hzero : q.num = 0
  · have hvalue : q.value = 0 := by rw [Quotient.value, hzero, Nat.cast_zero, zero_div]
    have hshown : q.roundedTo (step q.value) = 0 :=
      (Quotient.roundedTo_eq_value (n := 0) (by rw [hvalue, Nat.cast_zero, zero_mul])).trans hvalue
    rw [if_pos hzero, hshown, hvalue]
    exact ⟨_, .one, says_zero, fun h => absurd h (by norm_num)⟩
  · rw [if_neg hzero, formatWith]
    by_cases hsmall : q.value < 1
    · rw [if_pos (Quotient.value_lt_one_iff.mp hsmall)]
      obtain ⟨n, hn⟩ := says_formatSmall hsmall
      exact ⟨n, .one, hn, fun h => absurd hsmall (not_lt.mpr h)⟩
    · rw [if_neg (mt Quotient.value_lt_one_iff.mpr hsmall)]
      obtain ⟨scale, larger, heq, hladder, hlow, hhigh⟩ := scalesFrom_all (not_lt.mp hsmall)
      rw [heq]
      obtain ⟨n, shown, hn, hone⟩ := says_formatIn hladder hlow hhigh
      exact ⟨n, shown, hn, fun _ => hone⟩

end Magnitude

end MinerFleet
