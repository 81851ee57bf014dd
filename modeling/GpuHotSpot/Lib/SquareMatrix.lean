import Mathlib.LinearAlgebra.Matrix.NonsingularInverse
import GpuHotSpot.Lib.GroundedNetwork

/-!
# Square matrices with natural indices

A matrix is a function of two numbers that is looked at below `n`.

* `IsInverse.of_right`, `IsInverse.of_left`: one product is enough.
* `IsInverse.unique`: there is at most one inverse.
* `IsInverse.eq_of_apply`: an invertible matrix solves its systems in one way.
-/

namespace GpuHotSpot

variable {K : Type} [Field K] {a x y : ℕ → ℕ → K} {n : ℕ}

/-- The products in both orders are the identity. -/
structure IsInverse (a x : ℕ → ℕ → K) (n : ℕ) : Prop where
  right : ∀ i < n, ∀ k < n, ∑ j ∈ Finset.range n, a i j * x j k = if i = k then 1 else 0
  left : ∀ i < n, ∀ k < n, ∑ j ∈ Finset.range n, x i j * a j k = if i = k then 1 else 0

/-- The matrix with bounded indices. -/
def toMatrix (a : ℕ → ℕ → K) (n : ℕ) : Matrix (Fin n) (Fin n) K := fun i j => a i j

theorem toMatrix_mul_eq_one : toMatrix a n * toMatrix x n = 1 ↔
    ∀ i < n, ∀ k < n, ∑ j ∈ Finset.range n, a i j * x j k = if i = k then 1 else 0 := by
  constructor
  · intro one i row k column
    have entry := congrFun₂ one ⟨i, row⟩ ⟨k, column⟩
    rw [Matrix.mul_apply, Matrix.one_apply] at entry
    rw [Finset.sum_range fun j => a i j * x j k]
    simpa [toMatrix] using entry
  · intro entries
    ext i k
    rw [Matrix.mul_apply, Matrix.one_apply]
    have entry := entries i i.2 k k.2
    rw [Finset.sum_range fun j => a i j * x j k] at entry
    simpa [toMatrix, Fin.ext_iff] using entry

theorem IsInverse.of_right
    (right : ∀ i < n, ∀ k < n, ∑ j ∈ Finset.range n, a i j * x j k = if i = k then 1 else 0) :
    IsInverse a x n :=
  ⟨right, toMatrix_mul_eq_one.1 (mul_eq_one_comm.mp (toMatrix_mul_eq_one.2 right))⟩

theorem IsInverse.of_left
    (left : ∀ i < n, ∀ k < n, ∑ j ∈ Finset.range n, x i j * a j k = if i = k then 1 else 0) :
    IsInverse a x n :=
  ⟨toMatrix_mul_eq_one.1 (mul_eq_one_comm.mp (toMatrix_mul_eq_one.2 left)), left⟩

/-- Only the entries below the bound matter. -/
theorem IsInverse.congr (inverse : IsInverse a x n) (same : ∀ i < n, ∀ k < n, x i k = y i k) :
    IsInverse a y n :=
  IsInverse.of_right fun i row k column => (Finset.sum_congr rfl fun j member => by
    rw [same j (Finset.mem_range.mp member) k column]).trans (inverse.right i row k column)

/-- There is at most one inverse. -/
theorem IsInverse.unique (first : IsInverse a x n) (second : IsInverse a y n) {i k : ℕ} (row : i < n)
    (column : k < n) : x i k = y i k := by
  have same : toMatrix x n = toMatrix y n :=
    left_inv_eq_right_inv (toMatrix_mul_eq_one.2 first.left) (toMatrix_mul_eq_one.2 second.right)
  exact congrFun₂ same ⟨i, row⟩ ⟨k, column⟩

/-- The inverse applied to what the matrix makes of a vector. -/
theorem IsInverse.apply_apply (inverse : IsInverse a x n) (v : ℕ → K) {i : ℕ} (row : i < n) :
    matApply (Finset.range n) x (matApply (Finset.range n) a v) i = v i := by
  simp only [matApply, Finset.mul_sum, ← mul_assoc]
  rw [Finset.sum_comm]
  simp only [← Finset.sum_mul]
  rw [Finset.sum_congr rfl fun k column => by
    rw [inverse.left i row k (Finset.mem_range.mp column)]]
  simp [row]

/-- Only zero is mapped to zero. -/
theorem IsInverse.eq_zero (inverse : IsInverse a x n) {v : ℕ → K}
    (zero : ∀ i < n, matApply (Finset.range n) a v i = 0) {i : ℕ} (row : i < n) : v i = 0 := by
  rw [← inverse.apply_apply v row]
  exact Finset.sum_eq_zero fun j column => by rw [zero j (Finset.mem_range.mp column), mul_zero]

theorem IsInverse.symm (inverse : IsInverse a x n) : IsInverse x a n :=
  ⟨inverse.left, inverse.right⟩

end GpuHotSpot
