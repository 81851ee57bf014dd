import Mathlib.Algebra.BigOperators.Ring.Finset
import Mathlib.Algebra.Order.BigOperators.Ring.Finset
import Mathlib.Algebra.Order.Field.Basic
import Mathlib.Tactic.LinearCombination
import Mathlib.Tactic.Linarith
import Mathlib.Tactic.Ring

/-!
# Grounded networks

The conductance matrix of a resistor network with some nodes connected to ground.  Off the
diagonal it holds the negated conductances, and what a row adds up to is the conductance
of the node to ground.

* `Grounded.form_eq`: the quadratic form is the power dissipated in the resistors.
* `Grounded.form_pos`: it is positive when every node is linked to ground.
* `Grounded.eq_of_apply_eq`: potentials are determined by the currents.
* `Grounded.sum_apply`: all currents leave through the ground.
* `Grounded.le_of_apply_le`: more current means higher potentials.
* `Grounded.eliminate`: Gaussian elimination takes a node out of the network, and what is left is
  a network whose resistors conduct no less.
-/

namespace GpuHotSpot

variable {ι K : Type} [Field K] [LinearOrder K] {nodes : Finset ι} {b : ι → ι → K} {ground : ι → K}
  {x y : ι → K}

/-- The matrix applied to a vector. -/
def matApply (nodes : Finset ι) (b : ι → ι → K) (x : ι → K) (i : ι) : K := ∑ j ∈ nodes, b i j * x j

/-- The quadratic form of the matrix. -/
def matForm (nodes : Finset ι) (b : ι → ι → K) (x : ι → K) : K :=
  ∑ i ∈ nodes, x i * matApply nodes b x i

/-- The matrix is the conductance matrix of a network with these conductances to ground. -/
structure Grounded (nodes : Finset ι) (b : ι → ι → K) (ground : ι → K) : Prop where
  symmetric : ∀ i ∈ nodes, ∀ j ∈ nodes, b i j = b j i
  rowSum : ∀ i ∈ nodes, ∑ j ∈ nodes, b i j = ground i
  conductance : ∀ i ∈ nodes, ∀ j ∈ nodes, i ≠ j → b i j ≤ 0
  ground_nonneg : ∀ i ∈ nodes, 0 ≤ ground i

/-- There is a path of resistors from the node to ground. -/
inductive Linked (nodes : Finset ι) (b : ι → ι → K) (ground : ι → K) : ι → Prop
  | ground {i : ι} (conducts : 0 < ground i) : Linked nodes b ground i
  | link {i j : ι} (member : j ∈ nodes) (apart : i ≠ j) (conducts : b i j < 0)
      (linked : Linked nodes b ground j) : Linked nodes b ground i

namespace Grounded

/-- Only the entries between the nodes matter. -/
theorem congr {b' : ι → ι → K} (grounded : Grounded nodes b ground)
    (same : ∀ i ∈ nodes, ∀ j ∈ nodes, b i j = b' i j) : Grounded nodes b' ground where
  symmetric i row j col := by rw [← same i row j col, ← same j col i row, grounded.symmetric i row j col]
  rowSum i row := by
    rw [← grounded.rowSum i row]
    exact Finset.sum_congr rfl fun j col => (same i row j col).symm
  conductance i row j col apart := by
    rw [← same i row j col]
    exact grounded.conductance i row j col apart
  ground_nonneg := grounded.ground_nonneg

section Form

variable (grounded : Grounded nodes b ground)

include grounded

/-- **Ground.** Equal potentials drive currents through the ground only. -/
theorem apply_const (c : K) {i : ι} (member : i ∈ nodes) :
    matApply nodes b (fun _ => c) i = c * ground i := by
  rw [matApply, ← Finset.sum_mul, grounded.rowSum i member, mul_comm]

/-- **Conservation.** All currents leave through the ground. -/
theorem sum_apply (x : ι → K) :
    ∑ i ∈ nodes, matApply nodes b x i = ∑ j ∈ nodes, ground j * x j := by
  simp only [matApply]
  rw [Finset.sum_comm]
  refine Finset.sum_congr rfl fun j member => ?_
  rw [← Finset.sum_mul, ← grounded.rowSum j member]
  congr 1
  exact Finset.sum_congr rfl fun i member' => grounded.symmetric i member' j member

/-- **Dissipation.** The quadratic form is the power in the resistors and in the ground. -/
theorem form_eq (x : ι → K) :
    2 * matForm nodes b x = 2 * ∑ i ∈ nodes, ground i * x i ^ 2 +
        ∑ i ∈ nodes, ∑ j ∈ nodes, -b i j * (x i - x j) ^ 2 := by
  have rows : ∑ i ∈ nodes, ∑ j ∈ nodes, b i j * x i ^ 2 = ∑ i ∈ nodes, ground i * x i ^ 2 := by
    refine Finset.sum_congr rfl fun i member => ?_
    rw [← Finset.sum_mul, grounded.rowSum i member]
  have columns : ∑ i ∈ nodes, ∑ j ∈ nodes, b i j * x j ^ 2 = ∑ i ∈ nodes, ground i * x i ^ 2 := by
    rw [Finset.sum_comm, ← rows]
    refine Finset.sum_congr rfl fun i member => Finset.sum_congr rfl fun j member' => ?_
    rw [grounded.symmetric j member' i member]
  have products : matForm nodes b x = ∑ i ∈ nodes, ∑ j ∈ nodes, b i j * (x i * x j) := by
    refine Finset.sum_congr rfl fun i _ => ?_
    rw [matApply, Finset.mul_sum]
    exact Finset.sum_congr rfl fun j _ => by ring
  have squares : ∑ i ∈ nodes, ∑ j ∈ nodes, -b i j * (x i - x j) ^ 2 =
      2 * ∑ i ∈ nodes, ∑ j ∈ nodes, b i j * (x i * x j) -
        ∑ i ∈ nodes, ∑ j ∈ nodes, b i j * x i ^ 2 - ∑ i ∈ nodes, ∑ j ∈ nodes, b i j * x j ^ 2 := by
    simp only [Finset.mul_sum, ← Finset.sum_sub_distrib]
    exact Finset.sum_congr rfl fun i _ => Finset.sum_congr rfl fun j _ => by ring
  rw [squares, rows, columns, products]
  ring

variable [IsStrictOrderedRing K]

theorem dissipation_nonneg (x : ι → K) {i j : ι} (member : i ∈ nodes) (member' : j ∈ nodes) :
    0 ≤ -b i j * (x i - x j) ^ 2 := by
  by_cases same : i = j
  · rw [same, sub_self]
    simp
  · have conducts := grounded.conductance i member j member' same
    exact mul_nonneg (neg_nonneg.mpr conducts) (sq_nonneg _)

theorem form_nonneg (x : ι → K) : 0 ≤ matForm nodes b x := by
  have form := grounded.form_eq x
  have first : 0 ≤ ∑ i ∈ nodes, ground i * x i ^ 2 :=
    Finset.sum_nonneg fun i member => mul_nonneg (grounded.ground_nonneg i member) (sq_nonneg _)
  have second : 0 ≤ ∑ i ∈ nodes, ∑ j ∈ nodes, -b i j * (x i - x j) ^ 2 :=
    Finset.sum_nonneg fun i member => Finset.sum_nonneg fun j member' =>
      grounded.dissipation_nonneg x member member'
  linarith

/-- Without dissipation the potential of every node that is linked to ground is zero. -/
theorem eq_zero_of_form (none : matForm nodes b x = 0) {i : ι} (member : i ∈ nodes)
    (linked : Linked nodes b ground i) : x i = 0 := by
  have form := grounded.form_eq x
  rw [none, mul_zero] at form
  have toGround : ∀ i ∈ nodes, 0 ≤ ground i * x i ^ 2 := fun i member =>
    mul_nonneg (grounded.ground_nonneg i member) (sq_nonneg _)
  have between : ∀ i ∈ nodes, 0 ≤ ∑ j ∈ nodes, -b i j * (x i - x j) ^ 2 := fun i member =>
    Finset.sum_nonneg fun j member' => grounded.dissipation_nonneg x member member'
  have groundZero : ∑ i ∈ nodes, ground i * x i ^ 2 = 0 := by
    have first := Finset.sum_nonneg toGround
    have second := Finset.sum_nonneg between
    linarith
  have betweenZero : ∑ i ∈ nodes, ∑ j ∈ nodes, -b i j * (x i - x j) ^ 2 = 0 := by
    rw [groundZero] at form
    linarith
  induction linked with
  | @ground i conducts =>
    have zero := (Finset.sum_eq_zero_iff_of_nonneg toGround).mp groundZero i member
    have square := (mul_eq_zero.mp zero).resolve_left conducts.ne'
    exact pow_eq_zero_iff two_ne_zero |>.mp square
  | @link i j member' apart conducts linked ih =>
    have row := (Finset.sum_eq_zero_iff_of_nonneg between).mp betweenZero i member
    have cell := (Finset.sum_eq_zero_iff_of_nonneg fun k within =>
      grounded.dissipation_nonneg x member within).mp row j member'
    have square := (mul_eq_zero.mp cell).resolve_left (neg_ne_zero.mpr conducts.ne)
    have same : x i - x j = 0 := pow_eq_zero_iff two_ne_zero |>.mp square
    rw [ih member', sub_zero] at same
    exact same

/-- **Definiteness.** If every node is linked to ground, the matrix is positive definite. -/
theorem form_pos (linked : ∀ i ∈ nodes, Linked nodes b ground i) {i : ι} (member : i ∈ nodes)
    (nonzero : x i ≠ 0) : 0 < matForm nodes b x := by
  refine lt_of_le_of_ne (grounded.form_nonneg x) fun none => ?_
  exact nonzero (grounded.eq_zero_of_form none.symm member (linked i member))

/-- **Uniqueness.** The currents determine the potentials. -/
theorem eq_of_apply_eq (linked : ∀ i ∈ nodes, Linked nodes b ground i)
    (same : ∀ i ∈ nodes, matApply nodes b x i = matApply nodes b y i) :
    ∀ i ∈ nodes, x i = y i := by
  have difference : ∀ i ∈ nodes, matApply nodes b (x - y) i = 0 := by
    intro i member
    have split : matApply nodes b (x - y) i = matApply nodes b x i - matApply nodes b y i := by
      simp only [matApply, Pi.sub_apply, mul_sub, Finset.sum_sub_distrib]
    rw [split, same i member, sub_self]
  have none : matForm nodes b (x - y) = 0 :=
    Finset.sum_eq_zero fun i member => by rw [difference i member, mul_zero]
  intro i member
  exact sub_eq_zero.mp (grounded.eq_zero_of_form none member (linked i member))

/-- **Minimum principle.** Currents into the nodes do not draw a potential below ground. -/
theorem nonneg_of_apply_nonneg (linked : ∀ i ∈ nodes, Linked nodes b ground i)
    (inward : ∀ i ∈ nodes, 0 ≤ matApply nodes b x i) : ∀ i ∈ nodes, 0 ≤ x i := by
  let below : ι → K := fun i => min (x i) 0
  have negative : ∀ i, below i ≤ 0 := fun i => min_le_right _ _
  have drawn : ∑ i ∈ nodes, below i * matApply nodes b x i ≤ 0 :=
    Finset.sum_nonpos fun i member => mul_nonpos_of_nonpos_of_nonneg (negative i) (inward i member)
  -- the positive potentials only add to what the negative ones draw
  have rest : 0 ≤ ∑ i ∈ nodes, ∑ j ∈ nodes, below i * (b i j * (x j - below j)) := by
    refine Finset.sum_nonneg fun i member => Finset.sum_nonneg fun j member' => ?_
    have above : 0 ≤ x j - below j := sub_nonneg.mpr (min_le_left _ _)
    by_cases same : i = j
    · subst same
      rcases le_total (x i) 0 with under | higher
      · simp [below, min_eq_left under]
      · simp [below, min_eq_right higher]
    · have conducts := grounded.conductance i member j member' same
      exact mul_nonneg_of_nonpos_of_nonpos (negative i)
        (mul_nonpos_of_nonpos_of_nonneg conducts above)
  have parts : ∑ i ∈ nodes, below i * matApply nodes b x i = matForm nodes b below +
      ∑ i ∈ nodes, ∑ j ∈ nodes, below i * (b i j * (x j - below j)) := by
    rw [matForm, ← Finset.sum_add_distrib]
    refine Finset.sum_congr rfl fun i _ => ?_
    rw [matApply, matApply, Finset.mul_sum, Finset.mul_sum, ← Finset.sum_add_distrib]
    exact Finset.sum_congr rfl fun j _ => by ring
  have none : matForm nodes b below = 0 := by
    refine le_antisymm ?_ (grounded.form_nonneg below)
    linarith
  intro i member
  have zero : min (x i) 0 = 0 := grounded.eq_zero_of_form none member (linked i member)
  exact min_eq_right_iff.mp zero

/-- **Monotonicity.** More current lowers no potential. -/
theorem le_of_apply_le (linked : ∀ i ∈ nodes, Linked nodes b ground i)
    (more : ∀ i ∈ nodes, matApply nodes b x i ≤ matApply nodes b y i) :
    ∀ i ∈ nodes, x i ≤ y i := by
  have difference : ∀ i ∈ nodes, 0 ≤ matApply nodes b (y - x) i := by
    intro i member
    have split : matApply nodes b (y - x) i = matApply nodes b y i - matApply nodes b x i := by
      simp only [matApply, Pi.sub_apply, mul_sub, Finset.sum_sub_distrib]
    rw [split]
    exact sub_nonneg.mpr (more i member)
  exact fun i member => sub_nonneg.mp (grounded.nonneg_of_apply_nonneg linked difference i member)

end Form

/-! ## Elimination of a node -/

variable [DecidableEq ι] {k : ι} [IsStrictOrderedRing K]

omit [IsStrictOrderedRing K] in
/-- The entry on the diagonal is all that the node is connected with. -/
theorem diagonal_eq (grounded : Grounded (insert k nodes) b ground) (fresh : k ∉ nodes) :
    b k k = ground k + ∑ j ∈ nodes, -b k j := by
  have row := grounded.rowSum k (Finset.mem_insert_self k nodes)
  rw [Finset.sum_insert fresh] at row
  rw [← row, Finset.sum_neg_distrib]
  ring

omit [DecidableEq ι] in
private theorem apart_of_fresh (fresh : k ∉ nodes) {j : ι} (member : j ∈ nodes) : k ≠ j :=
  fun same => fresh (same ▸ member)

/-- The diagonal dominates the row. -/
theorem neg_le_diagonal (grounded : Grounded (insert k nodes) b ground) (fresh : k ∉ nodes)
    {j : ι} (member : j ∈ nodes) : -b k j ≤ b k k := by
  have conducts : ∀ j ∈ nodes, 0 ≤ -b k j := fun j member =>
    neg_nonneg.mpr (grounded.conductance k (Finset.mem_insert_self k nodes) j
      (Finset.mem_insert_of_mem member) (apart_of_fresh fresh member))
  rw [grounded.diagonal_eq fresh]
  have toGround := grounded.ground_nonneg k (Finset.mem_insert_self k nodes)
  have one := Finset.single_le_sum conducts member
  linarith

/-- The diagonal is no less than the conductance to ground. -/
theorem ground_le_diagonal (grounded : Grounded (insert k nodes) b ground) (fresh : k ∉ nodes) :
    ground k ≤ b k k := by
  rw [grounded.diagonal_eq fresh]
  refine le_add_of_nonneg_right (Finset.sum_nonneg fun j member => neg_nonneg.mpr ?_)
  exact grounded.conductance k (Finset.mem_insert_self k nodes) j
    (Finset.mem_insert_of_mem member) (apart_of_fresh fresh member)

/-- What elimination takes away off the diagonal. -/
theorem eliminated_nonneg (grounded : Grounded (insert k nodes) b ground) (fresh : k ∉ nodes)
    (pivot : 0 < b k k) {i j : ι} (row : i ∈ nodes) (col : j ∈ nodes) :
    0 ≤ b i k / b k k * b k j := by
  have self := Finset.mem_insert_self k nodes
  have left := grounded.conductance i (Finset.mem_insert_of_mem row) k self
    (apart_of_fresh fresh row).symm
  have right := grounded.conductance k self j (Finset.mem_insert_of_mem col)
    (apart_of_fresh fresh col)
  exact mul_nonneg_of_nonpos_of_nonpos (div_nonpos_of_nonpos_of_nonneg left pivot.le) right

/-- What elimination adds to the conductance to ground. -/
theorem regrounded_nonneg (grounded : Grounded (insert k nodes) b ground) (fresh : k ∉ nodes)
    (pivot : 0 < b k k) {i : ι} (row : i ∈ nodes) : 0 ≤ -(b i k / b k k * ground k) := by
  have self := Finset.mem_insert_self k nodes
  have left := grounded.conductance i (Finset.mem_insert_of_mem row) k self
    (apart_of_fresh fresh row).symm
  exact neg_nonneg.mpr (mul_nonpos_of_nonpos_of_nonneg
    (div_nonpos_of_nonpos_of_nonneg left pivot.le) (grounded.ground_nonneg k self))

/-- **Elimination.** What is left after the elimination of a node is again a network. -/
theorem eliminate (grounded : Grounded (insert k nodes) b ground) (fresh : k ∉ nodes)
    (pivot : 0 < b k k) :
    Grounded nodes (fun i j => b i j - b i k / b k k * b k j)
      (fun i => ground i - b i k / b k k * ground k) where
  symmetric i row j col := by
    have self := Finset.mem_insert_self k nodes
    rw [grounded.symmetric i (Finset.mem_insert_of_mem row) j (Finset.mem_insert_of_mem col),
      grounded.symmetric i (Finset.mem_insert_of_mem row) k self,
      grounded.symmetric j (Finset.mem_insert_of_mem col) k self]
    ring
  rowSum i row := by
    have here := grounded.rowSum i (Finset.mem_insert_of_mem row)
    have there := grounded.rowSum k (Finset.mem_insert_self k nodes)
    rw [Finset.sum_insert fresh] at here there
    rw [Finset.sum_sub_distrib, ← Finset.mul_sum, ← here, ← there, mul_add,
      div_mul_cancel₀ _ pivot.ne']
    ring
  conductance i row j col apart := by
    have before := grounded.conductance i (Finset.mem_insert_of_mem row) j
      (Finset.mem_insert_of_mem col) apart
    have taken := grounded.eliminated_nonneg fresh pivot row col
    linarith
  ground_nonneg i row := by
    have before := grounded.ground_nonneg i (Finset.mem_insert_of_mem row)
    have added := grounded.regrounded_nonneg fresh pivot row
    linarith

end Grounded

end GpuHotSpot
