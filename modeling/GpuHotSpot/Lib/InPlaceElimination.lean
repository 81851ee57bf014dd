import Mathlib.Algebra.BigOperators.Ring.Finset
import Mathlib.Algebra.BigOperators.Field
import Mathlib.Tactic.FieldSimp
import Mathlib.Tactic.Ring

/-!
# Elimination in place

Gauss-Jordan elimination of a square matrix together with the identity, where a column of the
identity is stored in the place of the column that has become one. The columns in `done` are those
of the identity; the unknowns of the done columns are solved for by the right hand sides.

* `knowns`, `unknowns`: the two sides of the equations that the stored matrix stands for.
* `knowns_swapRows`, `unknowns_swapRows`, `knowns_reduce`, `unknowns_reduce`: a step does the same
  to both sides, so that the equations stay true.
* `pivotStep_injective`: and none is lost.
-/

namespace GpuHotSpot

variable {ι K : Type} [DecidableEq ι] [Field K]

/-- The side of the right hand sides. -/
def knowns (done : Finset ι) (a : ι → ι → K) (y : ι → K) (i : ι) : K :=
  (if i ∈ done then 0 else y i) + ∑ j ∈ done, a i j * y j

/-- The side of the unknowns. -/
def unknowns (nodes done : Finset ι) (a : ι → ι → K) (x : ι → K) (i : ι) : K :=
  (if i ∈ done then x i else 0) + ∑ j ∈ nodes \ done, a i j * x j

/-- What a step does to a column of right hand sides: the pivot row is divided by the pivot, and
its multiples are subtracted from the other rows. -/
def pivotStep (a : ι → ι → K) (c : ι) (v : ι → K) (i : ι) : K :=
  if i = c then v c / a c c else v i - a i c / a c c * v c

/-- The step on the stored matrix. The column of the pivot becomes one of the identity's. -/
def reduce (a : ι → ι → K) (c : ι) (i j : ι) : K :=
  if i = c then (if j = c then 1 else a c j) * (1 / a c c)
  else (if j = c then 0 else a i j) - (if j = c then 1 else a c j) * (1 / a c c) * a i c

variable {nodes done : Finset ι} {a : ι → ι → K} {r c : ι}

theorem reduce_of_ne {j : ι} (other : j ≠ c) (i : ι) :
    reduce a c i j = pivotStep a c (fun i => a i j) i := by
  rw [reduce, pivotStep, if_neg other, if_neg other]
  split_ifs <;> ring

theorem reduce_self (i : ι) :
    reduce a c i c = pivotStep a c (fun i => if i = c then 1 else 0) i := by
  rw [reduce, pivotStep, if_pos rfl, if_pos rfl, if_pos rfl]
  split_ifs <;> ring

theorem pivotStep_congr {a' : ι → ι → K} {v w : ι → K} {i : ι} (pivot : a c c = a' c c)
    (column : a i c = a' i c) (here : v c = w c) (row : v i = w i) :
    pivotStep a c v i = pivotStep a' c w i := by
  rw [pivotStep, pivotStep, pivot, column, here, row]

/-- A step is linear. -/
theorem pivotStep_add (v w : ι → K) (i : ι) :
    pivotStep a c (fun i => v i + w i) i = pivotStep a c v i + pivotStep a c w i := by
  rw [pivotStep, pivotStep, pivotStep]
  split_ifs <;> ring

theorem pivotStep_sum (columns : Finset ι) (f : ι → ι → K) (y : ι → K) (i : ι) :
    pivotStep a c (fun i => ∑ j ∈ columns, f i j * y j) i =
      ∑ j ∈ columns, pivotStep a c (fun i => f i j) i * y j := by
  simp only [pivotStep]
  split_ifs
  · rw [Finset.sum_div]
    exact Finset.sum_congr rfl fun j _ => by ring
  · rw [Finset.mul_sum, ← Finset.sum_sub_distrib]
    exact Finset.sum_congr rfl fun j _ => by ring

/-- A step with a pivot that is not zero can be undone. -/
theorem pivotStep_injective (inside : ι → Prop) (pivot : a c c ≠ 0) {v : ι → K} (self : inside c)
    (zero : ∀ i, inside i → pivotStep a c v i = 0) {i : ι} (row : inside i) : v i = 0 := by
  have here : v c = 0 := by
    have none := zero c self
    rw [pivotStep, if_pos rfl, div_eq_zero_iff] at none
    exact none.resolve_right pivot
  rcases eq_or_ne i c with rfl | other
  · exact here
  · have none := zero i row
    rwa [pivotStep, if_neg other, here, mul_zero, sub_zero] at none

/-! ## Exchanging rows -/

theorem swap_mem_iff (rowLeft : r ∉ done) (columnLeft : c ∉ done) (i : ι) :
    Equiv.swap r c i ∈ done ↔ i ∈ done := by
  rcases eq_or_ne i r with rfl | notRow
  · simp [rowLeft, columnLeft]
  · rcases eq_or_ne i c with rfl | notColumn
    · simp [rowLeft, columnLeft]
    · rw [Equiv.swap_apply_of_ne_of_ne notRow notColumn]

theorem swap_done (rowLeft : r ∉ done) (columnLeft : c ∉ done) {j : ι} (member : j ∈ done) :
    Equiv.swap r c j = j :=
  Equiv.swap_apply_of_ne_of_ne (ne_of_mem_of_not_mem member rowLeft)
    (ne_of_mem_of_not_mem member columnLeft)

theorem knowns_swapRows (rowLeft : r ∉ done) (columnLeft : c ∉ done) (y : ι → K) (i : ι) :
    knowns done (fun i => a (Equiv.swap r c i)) (fun i => y (Equiv.swap r c i)) i =
      knowns done a y (Equiv.swap r c i) := by
  simp only [knowns, swap_mem_iff rowLeft columnLeft]
  congr 1
  exact Finset.sum_congr rfl fun j member => by rw [swap_done rowLeft columnLeft member]

theorem unknowns_swapRows (rowLeft : r ∉ done) (columnLeft : c ∉ done) (x : ι → K) (i : ι) :
    unknowns nodes done (fun i => a (Equiv.swap r c i)) x i =
      unknowns nodes done a x (Equiv.swap r c i) := by
  simp only [unknowns, swap_mem_iff rowLeft columnLeft]
  congr 1
  split_ifs with member
  · rw [swap_done rowLeft columnLeft member]
  · rfl

/-! ## A step -/

theorem knowns_reduce (left : c ∉ done) (y : ι → K) (i : ι) :
    knowns (insert c done) (reduce a c) y i = pivotStep a c (knowns done a y) i := by
  have rest : ∑ j ∈ done, reduce a c i j * y j =
      pivotStep a c (fun i => ∑ j ∈ done, a i j * y j) i := by
    rw [pivotStep_sum]
    exact Finset.sum_congr rfl fun j member => by
      rw [reduce_of_ne (ne_of_mem_of_not_mem member left)]
  have split : knowns done a y =
      fun i => (if i ∈ done then 0 else y i) + ∑ j ∈ done, a i j * y j := rfl
  rw [split, pivotStep_add, knowns, Finset.sum_insert left, rest, reduce_self, ← add_assoc]
  congr 1
  simp only [pivotStep, Finset.mem_insert]
  split_ifs <;> simp_all <;> ring

theorem unknowns_reduce (pivot : a c c ≠ 0) (inside : c ∈ nodes) (left : c ∉ done) (x : ι → K)
    (i : ι) : unknowns nodes (insert c done) (reduce a c) x i =
      pivotStep a c (unknowns nodes done a x) i := by
  have columns : nodes \ done = insert c (nodes \ insert c done) := by
    ext j
    by_cases same : j = c <;> simp [same, inside, left]
  have fresh : c ∉ nodes \ insert c done := by simp
  have rest : ∑ j ∈ nodes \ insert c done, reduce a c i j * x j =
      pivotStep a c (fun i => ∑ j ∈ nodes \ insert c done, a i j * x j) i := by
    rw [pivotStep_sum]
    exact Finset.sum_congr rfl fun j member => by
      rw [reduce_of_ne (ne_of_mem_of_not_mem member fresh)]
  have split : unknowns nodes done a x = fun i => ((if i ∈ done then x i else 0) + a i c * x c) +
      ∑ j ∈ nodes \ insert c done, a i j * x j := by
    funext i
    rw [unknowns, columns, Finset.sum_insert fresh, add_assoc]
  rw [split, pivotStep_add, unknowns, rest]
  congr 1
  simp only [pivotStep, Finset.mem_insert, left, if_false]
  split_ifs <;> simp_all <;> field_simp <;> ring

end GpuHotSpot
