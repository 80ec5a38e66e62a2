/-
The numbers of a text are finite.

* `Literal.isFinite_of_value?` — a literal stands for a finite number, if for any;
* `Json.Finite` — all numbers in a value are finite;
* `Json.finite_of_ofText?` — those in the value of a text are.

A literal keeps a whole number of 64 bits and scales it by powers of ten. Scaling it up may be too
much for a float, and then the literal stands for no number; scaling it down never is, as all these
powers are at least one.
-/
import MinerFleet.Proofs.Decimal.Finite
import MinerFleet.Proofs.Json.Nesting

namespace MinerFleet

open Decimal

/-! ### Literals -/

theorem Number.isFinite_int {n : Int} (h : n.natAbs < UInt64.size) :
    (Number.int n).toFloat.isFinite = true := by
  cases n with
  | ofNat n => exact (below_ofNat h).isFinite
  | negSucc n => exact isFinite_neg (below_ofNat h).isFinite

namespace Literal

theorem keep_lt {start : Nat} (h : start < UInt64.size) (digits : List Char) :
    (keep start digits).value < UInt64.size := by
  rw [keep]
  refine List.foldlRecOn (motive := fun k : Kept => k.value < UInt64.size) digits _ h
    fun k hk c _ => ?_
  dsimp only
  split
  · rename_i hnext
    exact hnext.2
  · exact hk

theorem atLeastOne_powerOfTen {n : Nat} (h : n ≤ 308) :
    AtLeastOne (powerOfTen n).toModel.unpack := by
  have hsmall : ∀ n : Fin 23, AtLeastOne (powerOfTen n).toModel.unpack := by decide +kernel
  have hlargest : AtLeastOne (powerOfTen 308).toModel.unpack := by decide +kernel
  by_cases hn : n < 23
  · exact hsmall ⟨n, hn⟩
  · by_cases hn' : n = 308
    · rw [hn']
      exact hlargest
    · -- Between those in a table and the one just below infinity, they are computed.
      rw [powerOfTen, Float.ofScientific, dif_neg (by omega)]
      exact atLeastOne_ofScientific (by omega)

theorem below_div_powerOfTen {x : Float} {k : Int} {n : Nat} (hk : -1073 ≤ k ∧ k < 972)
    (hx : Below k x.toModel.unpack) (hn : n ≤ 308) :
    Below (k + 1) (x / powerOfTen n).toModel.unpack :=
  (below_div hk.1 hx (atLeastOne_powerOfTen hn)).unpack_pack (by omega)

theorem isFinite_scale? {x y : Float} {exponent : Int} (hx : Below 67 x.toModel.unpack)
    (h : scale? x exponent = some y) : y.isFinite = true := by
  cases exponent with
  | ofNat n =>
    rw [scale?] at h
    split at h
    · rename_i hn
      dsimp only at h
      split at h
      · cases h
      · rename_i hinf
        obtain rfl := Option.some.inj h
        exact isFinite_mul hx.isFinite (atLeastOne_powerOfTen hn).isFinite
          (Bool.eq_false_of_not_eq_true hinf)
    · split at h
      · obtain rfl := Option.some.inj h
        exact hx.isFinite
      · cases h
  | negSucc m =>
    rw [scale?] at h
    split at h
    · rename_i hm
      obtain rfl := Option.some.inj h
      exact (below_div_powerOfTen (by decide) hx hm).isFinite
    · split at h
      · obtain rfl := Option.some.inj h
        have hfirst := below_div_powerOfTen (by decide) hx (Nat.le_refl 308)
        exact (below_div_powerOfTen (by decide) hfirst (by omega)).isFinite
      · obtain rfl := Option.some.inj h
        exact (below_ofNat (by decide : 0 < UInt64.size)).isFinite

theorem isFinite_float? {l : Literal} {x : Float} (h : l.float? = some x) : x.isFinite = true := by
  rw [float?] at h
  obtain ⟨y, hy, rfl⟩ := Option.map_eq_some_iff.mp h
  have hkept := keep_lt (keep_lt (by decide : 0 < UInt64.size) l.whole) (l.fraction.getD [])
  have hfinite := isFinite_scale? (below_ofNat hkept) hy
  split
  · exact isFinite_neg hfinite
  · exact hfinite

/-- A literal stands for a finite number, if for any. -/
theorem isFinite_of_value? {l : Literal} {n : Number} (h : l.value? = some n) :
    n.toFloat.isFinite = true := by
  have hkept := keep_lt (by decide : 0 < UInt64.size) l.whole
  rw [value?] at h
  split at h
  · split at h
    · obtain rfl := Option.some.inj h
      exact Number.isFinite_int hkept
    · split at h
      · obtain rfl := Option.some.inj h
        exact Number.isFinite_int (by rwa [Int.natAbs_neg])
      · obtain rfl := Option.some.inj h
        exact isFinite_neg (below_ofNat hkept).isFinite
  · obtain ⟨x, hx, rfl⟩ := Option.map_eq_some_iff.mp h
    exact isFinite_float? hx

end Literal

/-! ### Values -/

/-- All numbers in a value are finite. -/
def Json.Finite (v : Json) : Prop :=
  ∀ n ∈ v.numbers, n.toFloat.isFinite = true

namespace Json

theorem mem_itemsNumbers {n : Number} {items : List Json} :
    n ∈ itemsNumbers items ↔ ∃ v ∈ items, n ∈ v.numbers := by
  induction items with
  | nil => exact iff_of_false List.not_mem_nil fun ⟨_, hv, _⟩ => List.not_mem_nil hv
  | cons v items ih =>
    rw [itemsNumbers, List.mem_append, ih]
    simp only [List.mem_cons, exists_eq_or_imp]

/-- What the reader accepts has finite numbers. -/
theorem accepted_finite : Accepted fun _ v => v.Finite where
  null _ := List.forall_mem_nil _
  bool _ _ := List.forall_mem_nil _
  string _ _ := List.forall_mem_nil _
  number _ _ _ h := List.forall_mem_singleton.mpr (Literal.isFinite_of_value? h)
  array _ _ h n hn := by
    obtain ⟨v, hv, hn⟩ := mem_itemsNumbers.mp hn
    exact h v hv n hn
  object _ _ h n hn := by
    obtain ⟨e, he, hn⟩ := mem_fieldsNumbers.mp hn
    exact h e (KeyMap.mem_of_mem_ofList he) n hn

/-- The numbers in the value of a text are finite. -/
theorem finite_of_ofText? {s : String} {v : Json} (h : Json.ofText? s = some v) : v.Finite :=
  accepted_finite.of_ofText? h

end Json

end MinerFleet
