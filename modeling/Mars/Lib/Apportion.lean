import Mathlib.Algebra.BigOperators.Field
import Mathlib.Algebra.Order.BigOperators.Group.Finset
import Mathlib.Algebra.Order.Floor.Ring

/-!
Splitting a whole number by weights, with the fractions of earlier splits carried over.

* `share`: the part of `A` that falls to `i` by its weight, plus what it carries;
* `sum_share`: the shares add up to `A` and the carries;
* `sum_fract_share`: so the fractions left after rounding down make up for what the
  rounding has not handed out;
* `sum_floor_share_le`: while the carries stay below one, rounding down hands out at
  most `A`.
-/

namespace Apportion

variable {ι K : Type*} [Field K]

/-- The part of `A` that falls to `i` among `s`, plus the carry of `i`. -/
def share (s : Finset ι) (w c : ι → K) (A : ℤ) (i : ι) : K :=
  A * (w i / ∑ j ∈ s, w j) + c i

variable {s : Finset ι} {w c : ι → K} {A : ℤ}

lemma sum_share (hw : ∑ j ∈ s, w j ≠ 0) : ∑ i ∈ s, share s w c A i = A + ∑ i ∈ s, c i := by
  simp only [share, Finset.sum_add_distrib, ← Finset.mul_sum, ← Finset.sum_div]
  rw [div_self hw, mul_one]

variable [LinearOrder K] [IsStrictOrderedRing K] [FloorRing K]

lemma sum_fract_share (hw : ∑ j ∈ s, w j ≠ 0) :
    ∑ i ∈ s, Int.fract (share s w c A i)
      = ((A - ∑ i ∈ s, ⌊share s w c A i⌋ : ℤ) : K) + ∑ i ∈ s, c i := by
  have hsum := sum_share (c := c) (A := A) hw
  have hsplit : ∑ i ∈ s, share s w c A i
      = ((∑ i ∈ s, ⌊share s w c A i⌋ : ℤ) : K) + ∑ i ∈ s, Int.fract (share s w c A i) := by
    rw [Int.cast_sum, ← Finset.sum_add_distrib]
    exact Finset.sum_congr rfl fun i _ => (Int.floor_add_fract _).symm
  push_cast at hsplit ⊢
  linarith

/-- **Rounding down does not overspend** while the carries add up to less than one. -/
theorem sum_floor_share_le (hw : ∑ j ∈ s, w j ≠ 0) (hc : ∑ i ∈ s, c i < 1) :
    ∑ i ∈ s, ⌊share s w c A i⌋ ≤ A := by
  have hfract := sum_fract_share (c := c) (A := A) hw
  have hnonneg : 0 ≤ ∑ i ∈ s, Int.fract (share s w c A i) :=
    Finset.sum_nonneg fun i _ => Int.fract_nonneg _
  have hlt : (-1 : K) < ((A - ∑ i ∈ s, ⌊share s w c A i⌋ : ℤ) : K) := by linarith
  have hint : (-1 : ℤ) < A - ∑ i ∈ s, ⌊share s w c A i⌋ := by exact_mod_cast hlt
  omega

end Apportion
