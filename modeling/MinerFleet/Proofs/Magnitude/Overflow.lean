/-
Difficulties that are more than a float can be.

* `Magnitude.Overflows` — the number of a text is a float, and times its unit it is none;
* `Difficulty.Fits` — a difficulty that says no infinite number;
* `difficulties_finite_iff` — which amounts, difficulties, records and fleets are finite.

The number of a text has to be finite, but it is looked at before it is scaled by its unit. So a
text may say an infinite amount. How large it has to be for that follows from how products are
rounded (`isFinite_mul_iff`), since the units are floats (`Scale.value_factor`). From there the
amount goes into a record, and into the best difficulty of its fleet.

The best difficulty of a fleet is zero at first, and is replaced by what is larger and by nothing
else. So what is no number is passed over, as negative amounts are, and a best difficulty that is
infinite stays (`Totals.isFinite_add_iff`).
-/
import MinerFleet.Fleet.Totals
import MinerFleet.Proofs.Decimal.Rounding
import MinerFleet.Proofs.Decimal.Sum

namespace MinerFleet

open Decimal

/-! ### Amounts -/

namespace Scale

theorem isFinite_factor (scale : Scale) : scale.factor.isFinite = true := by
  cases scale <;> decide +kernel

/-- The units are floats. -/
theorem value_factor (scale : Scale) :
    (Magnitude.sizeOf scale.factor).value = 10 ^ scale.power := by
  have hfactor : (Magnitude.sizeOf scale.factor).num =
      10 ^ scale.power * (Magnitude.sizeOf scale.factor).den := by
    cases scale <;> decide +kernel
  rw [Quotient.value_eq_natCast_iff.mpr hfactor]
  push_cast
  rfl

end Scale

namespace Magnitude

/-- The number of a text is a float, but times its unit it is more than floats get. -/
def Overflows (s : String) : Prop :=
  ∃ n scale, read? s = some (n, scale) ∧ n.toFloat.isFinite = true ∧
    overflow ≤ (sizeOf n.toFloat).value * 10 ^ scale.power

theorem isFinite_parse?_iff (s : String) :
    (∀ x, parse? s = some x → x.isFinite = true) ↔ ¬Overflows s := by
  rw [parse?, Overflows]
  cases read? s with
  | none => exact iff_of_true nofun nofun
  | some said =>
    obtain ⟨n, scale⟩ := said
    dsimp only
    by_cases hn : n.toFloat.isFinite = true
    · have hproduct := isFinite_mul_iff hn scale.isFinite_factor
      rw [scale.value_factor] at hproduct
      rw [if_pos hn]
      constructor
      · rintro h ⟨n', scale', hsaid, -, hle⟩
        cases hsaid
        exact absurd (hproduct.mp (h _ rfl)) (not_lt_of_ge hle)
      · rintro h x hx
        cases hx
        exact hproduct.mpr (lt_of_not_ge fun hle => h ⟨n, scale, rfl, hn, hle⟩)
    · rw [if_neg hn]
      refine iff_of_true nofun ?_
      rintro ⟨n', scale', hsaid, hn', -⟩
      cases hsaid
      exact hn hn'

end Magnitude

/-! ### Difficulties -/

/-- A difficulty that says no number, or a finite one. -/
def Difficulty.Fits : Difficulty → Prop
  | .number x => x.isFinite = true
  | .text s => ¬Magnitude.Overflows s

theorem Difficulty.isFinite_value?_iff (y : Difficulty) :
    (∀ x, y.value? = some x → x.isFinite = true) ↔ y.Fits := by
  cases y with
  | number x => exact ⟨fun h => h x rfl, fun h _ hx => Option.some.inj hx ▸ h⟩
  | text s => exact Magnitude.isFinite_parse?_iff s

/-- The number that a difficulty becomes is the one that it says. -/
theorem Difficulty.numerized_eq_number {y : Difficulty} {x : Float} :
    y.numerized = .number x ↔ y.value? = some x := by
  have hnumber : ∀ z, Difficulty.number z = .number x ↔ some z = some x := fun z => by
    rw [Difficulty.number.injEq, Option.some.injEq]
  cases y with
  | number z => exact hnumber z
  | text s =>
    rw [numerized, value?]
    cases Magnitude.parse? s with
    | none => exact iff_of_false nofun nofun
    | some z => exact hnumber z

namespace Device

/-- The difficulties that a record has. -/
def difficulties (d : Device) : List Difficulty :=
  d.bestDiff.toList ++ d.bestSessionDiff.toList

theorem difficulties_numerized (d : Device) :
    d.numerized.difficulties = d.difficulties.map Difficulty.numerized := by
  rw [difficulties, difficulties, List.map_append, ← Option.toList_map, ← Option.toList_map]
  rfl

theorem isFinite_numerized_iff (d : Device) :
    (∀ x, .number x ∈ d.numerized.difficulties → x.isFinite = true) ↔
      ∀ y ∈ d.difficulties, y.Fits := by
  rw [difficulties_numerized]
  constructor
  · intro h y hy
    refine y.isFinite_value?_iff.mp fun x hx => h x ?_
    exact List.mem_map.mpr ⟨y, hy, Difficulty.numerized_eq_number.mpr hx⟩
  · intro h x hx
    obtain ⟨y, hy, hnumber⟩ := List.mem_map.mp hx
    exact y.isFinite_value?_iff.mpr (h y hy) x (Difficulty.numerized_eq_number.mp hnumber)

end Device

/-! ### Comparing with infinity -/

namespace Decimal

open Float.Model

/-- What is larger than something is a number, and not the negative infinity. -/
theorem finite_or_infinite_of_lt {a b : UnpackedFloat} (h : a.lt b = true) :
    b.isFinite = true ∨ b = .infinity .positive := by
  cases b with
  | zero sign => exact .inl rfl
  | finite sign m e hm => exact .inl rfl
  | notANumber => cases a <;> cases h
  | infinity sign =>
    cases sign with
    | positive => exact .inr rfl
    | negative =>
      cases a with
      | infinity sign => cases sign <;> cases h
      | notANumber => cases h
      | zero sign => cases h
      | finite sign m e hm => cases h

/-- Nothing is larger than infinity. -/
theorem not_infinite_lt (b : UnpackedFloat) : ¬(UnpackedFloat.infinity .positive).lt b = true := by
  cases b with
  | infinity sign => cases sign <;> exact nofun
  | notANumber => exact nofun
  | zero sign => exact nofun
  | finite sign m e hm => exact nofun

/-- What is not finite is larger than a finite float if it is larger than zero. -/
theorem lt_iff_zero_lt {a b : UnpackedFloat} (ha : a.isFinite = true) (hb : ¬b.isFinite = true) :
    a.lt b = true ↔ (UnpackedFloat.zero .positive).lt b = true := by
  cases b with
  | zero sign => exact absurd rfl hb
  | finite sign m e hm => exact absurd rfl hb
  | notANumber => cases a <;> exact Iff.rfl
  | infinity sign =>
    cases a with
    | infinity sign' => cases ha
    | notANumber => cases ha
    | zero sign' => cases sign <;> exact Iff.rfl
    | finite sign' m e hm => cases sign <;> cases sign' <;> exact Iff.rfl

end Decimal

/-! ### The best difficulty of a fleet -/

/-- A difficulty that leaves the best one of a fleet finite. -/
def Difficulty.Harmless (y : Difficulty) : Prop :=
  y.Fits ∨ ∀ x, y.value? = some x → ¬0 < x

theorem Device.harmless_iff (d : Device) :
    (∀ y, d.bestDiff = some y → y.Harmless) ↔
      (d.bestDiffValue.getD 0).isFinite = true ∨ ¬0 < d.bestDiffValue.getD 0 := by
  rw [bestDiffValue]
  cases d.bestDiff with
  | none => exact iff_of_true nofun (.inl (by decide +kernel))
  | some y =>
    have hself : (∀ z, some y = some z → z.Harmless) ↔ y.Harmless :=
      ⟨fun h => h y rfl, fun h _ hz => Option.some.inj hz ▸ h⟩
    rw [hself, Difficulty.Harmless, ← y.isFinite_value?_iff, Option.bind_some]
    cases y.value? with
    | none => exact iff_of_true (.inl nofun) (.inl (by decide +kernel))
    | some x =>
      simp only [Option.some.injEq, forall_eq', Option.getD_some]

namespace Totals

/-- A best difficulty as it comes up. -/
inductive Reached (x : Float) : Prop
  | finite (h : x.isFinite = true)
  | infinite (h : x.toModel.unpack = .infinity .positive)

theorem reached_zero : Reached 0 :=
  .finite (by decide +kernel)

variable {t : Totals}

theorem Reached.add (h : Reached t.bestDiff) (d : Device) : Reached (t.add d).bestDiff := by
  rw [Totals.add]
  dsimp only
  split
  · rename_i hlt
    rcases finite_or_infinite_of_lt (lt_iff_unpack.mp hlt) with hfinite | hinfinite
    · exact .finite hfinite
    · exact .infinite hinfinite
  · exact h

/-- A best difficulty stays finite if the next one is finite, or not positive. -/
theorem isFinite_add_iff (h : Reached t.bestDiff) (d : Device) :
    (t.add d).bestDiff.isFinite = true ↔
      t.bestDiff.isFinite = true ∧ ∀ y, d.bestDiff = some y → y.Harmless := by
  rw [d.harmless_iff, Totals.add]
  dsimp only
  generalize d.bestDiffValue.getD 0 = best
  cases h with
  | infinite h =>
    have hsame : ¬t.bestDiff < best := by
      rw [lt_iff_unpack, h]
      exact not_infinite_lt _
    have hinfinite : ¬t.bestDiff.isFinite = true := by
      show ¬t.bestDiff.toModel.unpack.isFinite = true
      rw [h]
      exact nofun
    rw [if_neg hsame]
    exact iff_of_false hinfinite fun hboth => hinfinite hboth.1
  | finite h =>
    rw [and_iff_right h]
    by_cases hbest : best.isFinite = true
    · refine iff_of_true ?_ (.inl hbest)
      split
      · exact hbest
      · exact h
    · have hpositive : t.bestDiff < best ↔ 0 < best := by
        rw [lt_iff_unpack, lt_iff_unpack, unpack_zero]
        exact lt_iff_zero_lt h hbest
      rw [or_iff_right hbest, ← hpositive]
      split
      · rename_i hlt
        exact iff_of_false hbest (not_not_intro hlt)
      · rename_i hlt
        exact iff_of_true h hlt

/-- The fleet is gone through from any best difficulty that comes up. -/
theorem isFinite_foldl_iff (h : Reached t.bestDiff) (ds : List Device) :
    (ds.foldl Totals.add t).bestDiff.isFinite = true ↔
      t.bestDiff.isFinite = true ∧ ∀ d ∈ ds, ∀ y, d.bestDiff = some y → y.Harmless := by
  induction ds generalizing t with
  | nil => exact (and_iff_left (List.forall_mem_nil _)).symm
  | cons d ds ih =>
    rw [List.foldl_cons, ih (h.add d), isFinite_add_iff h, List.forall_mem_cons, and_assoc]

end Totals

/-- A text that says more than floats get says an infinite amount, and no other text does.

* So what a difficulty says is finite exactly where it fits, and the difficulties that a record has
  as numbers are finite exactly where all that it was given fit.
* The best difficulty of a fleet is finite exactly where that of each of its miners fits, or is not
  positive. -/
theorem difficulties_finite_iff (s : String) (y : Difficulty) (d : Device) (ds : List Device) :
    ((∀ x, Magnitude.parse? s = some x → x.isFinite = true) ↔ ¬Magnitude.Overflows s) ∧
    ((∀ x, y.value? = some x → x.isFinite = true) ↔ y.Fits) ∧
    ((∀ x, .number x ∈ d.numerized.difficulties → x.isFinite = true) ↔
      ∀ y ∈ d.difficulties, y.Fits) ∧
    ((totals ds).bestDiff.isFinite = true ↔
      ∀ d ∈ ds, ∀ y, d.bestDiff = some y → y.Harmless) := by
  refine ⟨Magnitude.isFinite_parse?_iff s, y.isFinite_value?_iff, d.isFinite_numerized_iff, ?_⟩
  have hzero : ({} : Totals).bestDiff.isFinite = true := by decide +kernel
  rw [totals, Totals.isFinite_foldl_iff Totals.reached_zero]
  exact and_iff_right hzero

/-- A text says an infinite number, which becomes the best difficulty of a record and of its
fleet. -/
theorem infinite_from_text :
    let d : Device := { bestDiff := some (.text "1e300E") }
    Magnitude.parse? "1e300E" = some (1 / 0) ∧ (1 / 0 : Float).isFinite = false ∧
      Difficulty.number (1 / 0) ∈ d.numerized.difficulties ∧ (totals [d]).bestDiff = 1 / 0 := by
  decide +kernel

end MinerFleet
