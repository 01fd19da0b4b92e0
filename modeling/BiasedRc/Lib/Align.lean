import Mathlib.Data.Nat.Basic
import Mathlib.Order.MinMax

/-! # Rounding up to an alignment

The smallest multiple of `align` that is not below `size`, and what of it the
arithmetic of layouts needs.
-/

namespace Align

/-- `size` rounded up to a multiple of `align`. -/
def roundUp (size align : ℕ) : ℕ := (size + (align - 1)) / align * align

variable {size align : ℕ}

theorem dvd_roundUp : align ∣ roundUp size align := Nat.dvd_mul_left ..

theorem le_roundUp (positive : 0 < align) : size ≤ roundUp size align := by
  have split := Nat.div_add_mod (size + (align - 1)) align
  have rest := Nat.mod_lt (size + (align - 1)) positive
  rw [Nat.mul_comm] at split
  simp only [roundUp]
  omega

theorem roundUp_le_roundUp {size' : ℕ} (le : size ≤ size') : roundUp size align ≤ roundUp size' align :=
  Nat.mul_le_mul_right _ (Nat.div_le_div_right (by omega))

/-- Two powers of two are ordered by divisibility. -/
theorem dvd_max_left {a b : ℕ} (powA : a.isPowerOfTwo) (powB : b.isPowerOfTwo) : a ∣ max a b := by
  obtain ⟨k, rfl⟩ := powA
  obtain ⟨l, rfl⟩ := powB
  rcases le_total (2 ^ k) (2 ^ l) with le | le
  · rw [max_eq_right le]
    exact Nat.pow_dvd_pow 2 ((Nat.pow_le_pow_iff_right (by omega)).mp le)
  · exact (max_eq_left le).symm ▸ Nat.dvd_refl _

theorem dvd_max_right {a b : ℕ} (powA : a.isPowerOfTwo) (powB : b.isPowerOfTwo) : b ∣ max a b :=
  max_comm b a ▸ dvd_max_left powB powA

theorem isPowerOfTwo_max {a b : ℕ} (powA : a.isPowerOfTwo) (powB : b.isPowerOfTwo) :
    (max a b).isPowerOfTwo := by
  rcases max_choice a b with same | same <;> rwa [same]

end Align
