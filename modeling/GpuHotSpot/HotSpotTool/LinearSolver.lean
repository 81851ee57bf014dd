import GpuHotSpot.HotSpotTool.Util
import GpuHotSpot.Lib.GroundedNetwork
import GpuHotSpot.Lib.Machine
import Mathlib.Algebra.BigOperators.Intervals
import Mathlib.Order.Interval.Finset.Nat
import Mathlib.Tactic.FieldSimp

/-!
# The linear solver

`lupdcmp` and `lusolve` of `RCutil.c`, in exact arithmetic: Gaussian elimination with the
largest entry of a column as the pivot, in place, and the two substitutions.  The
decomposition stops the program when no entry of a column reaches `DELTA`.

* `lupdcmp_factors`: the decomposition multiplies out to the matrix, rows permuted.
* `Factors.lusolve_solves`: on a nonsingular matrix the substitutions solve the system.
* `lupdcmp_ok`: on the matrix of a network no pivot is exchanged, and the program is not stopped if
  every node is connected well enough.
-/

namespace GpuHotSpot.HotSpotTool.LinearSolver

open Fallible

variable {K : Type}

/-! ## The code -/

/-- `fatal ("singular matrix in lupdcmp\n")`. -/
inductive Fatal
  | singularMatrix
  deriving DecidableEq, Repr

/-- The matrix, which is decomposed in place, and the permutation vector. -/
structure Decomposition (K : Type) where
  a : ℕ → ℕ → K
  p : ℕ → ℕ

variable [Field K]

/-- The search for the pivot of column `k`: the largest entry so far and its row.  Before any
entry is found the row does not matter. -/
def findPivot [LinearOrder K] (a : ℕ → ℕ → K) (n k : ℕ) : K × ℕ :=
  (List.range' k (n - k)).foldl
    (fun best i => if |a i k| > best.1 then (|a i k|, i) else best) (0, k)

/-- `swap_ival` and the `swap_dval`s of a round. -/
def swapRows (s : Decomposition K) (k pivot : ℕ) : Decomposition K where
  a i := s.a (Equiv.swap k pivot i)
  p i := s.p (Equiv.swap k pivot i)

/-- The elimination below the pivot in column `k`. -/
def eliminate (a : ℕ → ℕ → K) (k i j : ℕ) : K :=
  if i > k then
    if j > k then a i j - a i k / a k k * a k j
    else if j = k then a i k / a k k
    else a i j
  else a i j

/-- One round of `lupdcmp`. -/
def lupRound [LinearOrder K] (n : ℕ) (s : Decomposition K) (k : ℕ) : Except Fatal (Decomposition K) :=
  let (max, pivot) := findPivot s.a n k
  if near max 0 then .error .singularMatrix
  else
    let s := swapRows s k pivot
    .ok { s with a := eliminate s.a k }

/-- `lupdcmp`, without the accelerated libraries. -/
def lupdcmp [LinearOrder K] (b : ℕ → ℕ → K) (n : ℕ) : Except Fatal (Decomposition K) :=
  (List.range (n - 1)).foldlM (lupRound n) ⟨b, id⟩

/-- Forward substitution in `lusolve`, the first `m` rounds. -/
def forward (s : Decomposition K) (b : ℕ → K) : ℕ → ℕ → K
  | 0 => 0
  | m + 1 =>
    let y := forward s b m
    Function.update y m (b (s.p m) - ∑ j ∈ Finset.range m, y j * s.a m j)

/-- Backward substitution in `lusolve`, the first `m` rounds from the last row up. -/
def backward (s : Decomposition K) (n : ℕ) (y : ℕ → K) : ℕ → ℕ → K
  | 0 => 0
  | m + 1 =>
    let x := backward s n y m
    let i := n - 1 - m
    Function.update x i ((y i - ∑ j ∈ Finset.Ico (i + 1) n, x j * s.a i j) / s.a i i)

/-- `lusolve`. -/
def lusolve (s : Decomposition K) (n : ℕ) (b : ℕ → K) : ℕ → K := backward s n (forward s b n) n

/-! ## Substitution -/

variable {s : Decomposition K} {n : ℕ} {b y : ℕ → K}

/-- Forward substitution solves the lower triangle. -/
theorem forward_eq {m i : ℕ} (inside : i < m) :
    forward s b m i + ∑ j ∈ Finset.range i, s.a i j * forward s b m j = b (s.p i) := by
  induction m with
  | zero => exact absurd inside (Nat.not_lt_zero i)
  | succ m ih =>
    have kept : ∑ j ∈ Finset.range i, s.a i j * forward s b (m + 1) j =
        ∑ j ∈ Finset.range i, s.a i j * forward s b m j := by
      refine Finset.sum_congr rfl fun j before => ?_
      have earlier := Finset.mem_range.mp before
      rw [forward, Function.update_of_ne (by omega)]
    rw [kept]
    rcases Nat.lt_succ_iff_lt_or_eq.mp inside with early | rfl
    · rw [forward, Function.update_of_ne early.ne]
      exact ih early
    · rw [forward, Function.update_self]
      simp only [mul_comm (forward s b i _)]
      ring

/-- Backward substitution solves the upper triangle, if no entry of the diagonal is zero. -/
theorem backward_eq (diagonal : ∀ i < n, s.a i i ≠ 0) {m i : ℕ} (rounds : m ≤ n)
    (solved : n - m ≤ i) (inside : i < n) :
    ∑ j ∈ Finset.Ico i n, s.a i j * backward s n y m j = y i := by
  induction m with
  | zero => omega
  | succ m ih =>
    have kept : ∀ j, n - 1 - m < j → backward s n y (m + 1) j = backward s n y m j :=
      fun j after => by rw [backward, Function.update_of_ne after.ne']
    have tail : ∑ j ∈ Finset.Ico (i + 1) n, s.a i j * backward s n y (m + 1) j =
        ∑ j ∈ Finset.Ico (i + 1) n, s.a i j * backward s n y m j := by
      refine Finset.sum_congr rfl fun j later => ?_
      have after := (Finset.mem_Ico.mp later).1
      rw [kept j (by omega)]
    rw [Finset.sum_eq_sum_Ico_succ_bot inside, tail]
    rcases Nat.lt_or_ge (n - 1 - m) i with early | here
    · have whole := ih (by omega) (by omega)
      rw [Finset.sum_eq_sum_Ico_succ_bot inside] at whole
      rw [kept i early]
      exact whole
    · obtain rfl : i = n - 1 - m := by omega
      rw [backward, Function.update_self]
      simp only [mul_comm (backward s n y m _)]
      have nonzero := diagonal _ inside
      field_simp
      ring

/-! ## Decomposition -/

/-- What the first `k` rounds achieve: multiplied out, the multipliers below the diagonal and the
rows from the diagonal on, or from column `k` on, give the permuted matrix. -/
structure Factors (b : ℕ → ℕ → K) (n k : ℕ) (s : Decomposition K) : Prop where
  product : ∀ i < n, ∀ j < n, b (s.p i) j =
    ∑ m ∈ Finset.range (min i k), (if m ≤ j then s.a i m * s.a m j else 0) +
      if min i k ≤ j then s.a i j else 0
  diagonal : ∀ i < k, s.a i i ≠ 0
  permutes : ∀ r < n, ∃ i < n, s.p i = r

variable {c : ℕ → ℕ → K} {k q : ℕ}

/-- The pivot is in the part of the column that is left. -/
theorem findPivot_spec [LinearOrder K] (a : ℕ → ℕ → K) (inside : k < n) :
    ((findPivot a n k).1 = 0 ∨ (findPivot a n k).1 = |a (findPivot a n k).2 k|) ∧
      k ≤ (findPivot a n k).2 ∧ (findPivot a n k).2 < n := by
  have start : ((0 : K) = 0 ∨ (0 : K) = |a k k|) ∧ k ≤ k ∧ k < n := ⟨Or.inl rfl, le_rfl, inside⟩
  refine List.foldlRecOn (List.range' k (n - k)) _
    (motive := fun best : K × ℕ => (best.1 = 0 ∨ best.1 = |a best.2 k|) ∧ k ≤ best.2 ∧ best.2 < n) start ?_
  intro best found i member
  split_ifs
  · rw [List.mem_range'_1] at member
    exact ⟨Or.inr rfl, by omega, by omega⟩
  · exact found

/-- Swapping two rows that are left. -/
theorem Factors.swapRows (factors : Factors c n k s) (left : k < n) (low : k ≤ q) (high : q < n) :
    Factors c n k (swapRows s k q) where
  product i inside j inside' := by
    have fixed : ∀ m < k, Equiv.swap k q m = m := fun m early =>
      Equiv.swap_apply_of_ne_of_ne (by omega) (by omega)
    rcases Nat.lt_or_ge i k with early | late
    · have product := factors.product i inside j inside'
      simp only [LinearSolver.swapRows, fixed i early]
      rw [product]
      congr 1
      refine Finset.sum_congr rfl fun m member => ?_
      rw [fixed m (by have := Finset.mem_range.mp member; omega)]
    · have swapped : k ≤ Equiv.swap k q i ∧ Equiv.swap k q i < n := by
        rw [Equiv.swap_apply_def]
        split_ifs <;> omega
      have product := factors.product _ swapped.2 j inside'
      rw [min_eq_right swapped.1] at product
      simp only [LinearSolver.swapRows, min_eq_right late]
      rw [product]
      congr 1
      refine Finset.sum_congr rfl fun m member => ?_
      rw [fixed m (Finset.mem_range.mp member)]
  diagonal i early := by
    simp only [LinearSolver.swapRows]
    rw [Equiv.swap_apply_of_ne_of_ne (by omega) (by omega)]
    exact factors.diagonal i early
  permutes r inside := by
    obtain ⟨i, within, same⟩ := factors.permutes r inside
    refine ⟨Equiv.swap k q i, ?_, ?_⟩
    · rw [Equiv.swap_apply_def]
      split_ifs <;> omega
    · simp only [LinearSolver.swapRows, Equiv.swap_apply_self, same]

/-- Elimination below a pivot that is not zero. -/
theorem Factors.eliminate (factors : Factors c n k s) (pivot : s.a k k ≠ 0) :
    Factors c n (k + 1) { s with a := eliminate s.a k } where
  product i inside j inside' := by
    have product := factors.product i inside j inside'
    have upper : ∀ m ≤ k, ∀ j, LinearSolver.eliminate s.a k m j = s.a m j := fun m early j => by
      rw [LinearSolver.eliminate, if_neg (by omega)]
    rcases Nat.lt_or_ge k i with below | above
    · have multiplier : ∀ m < k, LinearSolver.eliminate s.a k i m = s.a i m := fun m early => by
        rw [LinearSolver.eliminate, if_pos below, if_neg (by omega), if_neg (by omega)]
      have here : LinearSolver.eliminate s.a k i k = s.a i k / s.a k k := by
        rw [LinearSolver.eliminate, if_pos below, if_neg (lt_irrefl k), if_pos rfl]
      have earlier : ∑ m ∈ Finset.range k, (if m ≤ j then
            LinearSolver.eliminate s.a k i m * LinearSolver.eliminate s.a k m j else 0) =
          ∑ m ∈ Finset.range k, if m ≤ j then s.a i m * s.a m j else 0 := by
        refine Finset.sum_congr rfl fun m member => ?_
        have early := Finset.mem_range.mp member
        rw [multiplier m early, upper m early.le]
      rw [min_eq_right below.le] at product
      simp only [min_eq_right (Nat.succ_le_of_lt below)]
      rw [Finset.sum_range_succ, earlier, product, here, upper k le_rfl, add_assoc]
      congr 1
      rcases Nat.lt_trichotomy j k with left | rfl | right
      · rw [if_neg (by omega), if_neg (by omega), if_neg (by omega), add_zero]
      · rw [if_pos le_rfl, if_pos le_rfl, if_neg (by omega), add_zero, div_mul_cancel₀ _ pivot]
      · have rest : LinearSolver.eliminate s.a k i j = s.a i j - s.a i k / s.a k k * s.a k j := by
          rw [LinearSolver.eliminate, if_pos below, if_pos right]
        rw [if_pos right.le, if_pos right.le, if_pos (Nat.succ_le_of_lt right), rest]
        ring
    · rw [min_eq_left above] at product
      simp only [min_eq_left (above.trans (Nat.le_succ k)), upper i above]
      rw [product]
      congr 1
      refine Finset.sum_congr rfl fun m member => ?_
      rw [upper m (by have := Finset.mem_range.mp member; omega)]
  diagonal i early := by
    simp only [LinearSolver.eliminate, if_neg (show ¬ i > k by omega)]
    rcases Nat.lt_succ_iff_lt_or_eq.mp early with before | rfl
    · exact factors.diagonal i before
    · exact pivot
  permutes := factors.permutes

variable [LinearOrder K] [IsStrictOrderedRing K]

/-- One round continues the decomposition or stops the program. -/
theorem lupRound_factors (factors : Factors c n k s) (left : k < n) :
    Ensures (Factors c n (k + 1)) (fun _ => True) (lupRound n s k) := by
  obtain ⟨largest, low, high⟩ := findPivot_spec s.a left
  rw [lupRound]
  split
  next max pivot found =>
    rw [found] at largest low high
    simp only at largest low high
    split_ifs with tiny
    · trivial
    · have nonzero : max ≠ 0 := by
        rintro rfl
        refine tiny ?_
        rw [near, sub_self, abs_zero]
        exact delta_pos
      refine (factors.swapRows left low high).eliminate ?_
      simp only [swapRows, Equiv.swap_apply_left]
      intro zero
      rw [zero, abs_zero, or_self] at largest
      exact nonzero largest

/-- **Decomposition.** If the program is not stopped, the factors multiply out to the matrix. -/
theorem lupdcmp_factors (c : ℕ → ℕ → K) (n : ℕ) :
    Ensures (Factors c n (n - 1)) (fun _ => True) (lupdcmp c n) := by
  have start : Factors c n 0 ⟨c, id⟩ :=
    ⟨fun i _ j _ => by simp, fun i early => absurd early (Nat.not_lt_zero i),
      fun r inside => ⟨r, inside, rfl⟩⟩
  have rounds : ∀ m ≤ n - 1, Ensures (Factors c n m) (fun _ => True)
      ((List.range m).foldlM (lupRound n) ⟨c, id⟩) := by
    intro m
    induction m with
    | zero => exact fun _ => start
    | succ m ih =>
      intro within
      rw [List.range_succ, List.foldlM_append]
      refine (ih (by omega)).bind fun s factors => ?_
      rw [List.foldlM_cons]
      exact (lupRound_factors factors (by omega)).bind fun t done => done
  exact rounds (n - 1) le_rfl

/-! ## Solving -/

omit [LinearOrder K] [IsStrictOrderedRing K] in
/-- A row of the matrix applied to a vector, through the factors. -/
theorem Factors.apply_eq (factors : Factors c n (n - 1) s) (x : ℕ → K) {i : ℕ} (inside : i < n) :
    matApply (Finset.range n) c x (s.p i) =
      ∑ m ∈ Finset.range i, s.a i m * ∑ j ∈ Finset.Ico m n, s.a m j * x j +
        ∑ j ∈ Finset.Ico i n, s.a i j * x j := by
  have upper : ∀ m (f : ℕ → K), ∑ j ∈ Finset.Ico m n, f j =
      ∑ j ∈ Finset.range n, if m ≤ j then f j else 0 := by
    intro m f
    rw [← Finset.sum_filter]
    refine Finset.sum_congr ?_ fun _ _ => rfl
    ext j
    simp only [Finset.mem_Ico, Finset.mem_filter, Finset.mem_range]
    omega
  simp only [matApply, upper, Finset.mul_sum]
  rw [Finset.sum_comm, ← Finset.sum_add_distrib]
  refine Finset.sum_congr rfl fun j member => ?_
  rw [factors.product i inside j (Finset.mem_range.mp member), min_eq_left (by omega), add_mul,
    Finset.sum_mul]
  congr 1
  · refine Finset.sum_congr rfl fun m _ => ?_
    split_ifs <;> ring
  · split_ifs <;> ring

/-- Only zero is mapped to zero. -/
def Nonsingular (c : ℕ → ℕ → K) (n : ℕ) : Prop :=
  ∀ x : ℕ → K, (∀ i < n, matApply (Finset.range n) c x i = 0) → ∀ i < n, x i = 0

omit [LinearOrder K] [IsStrictOrderedRing K] in
/-- The last entry of the diagonal of a nonsingular matrix is not zero either. -/
theorem Factors.diagonal_ne_zero (factors : Factors c n (n - 1) s) (nonsingular : Nonsingular c n) :
    ∀ i < n, s.a i i ≠ 0 := by
  intro i inside zero
  obtain rfl : i = n - 1 := by
    by_contra other
    exact factors.diagonal i (by omega) zero
  -- with a one in the last place the rows above can be solved
  let t : Decomposition K := { s with a := fun i j => if i = n - 1 ∧ j = n - 1 then 1 else s.a i j }
  have same : ∀ i < n - 1, ∀ j, t.a i j = s.a i j := fun i early j => if_neg (by omega)
  have diagonal : ∀ i < n, t.a i i ≠ 0 := by
    intro i within
    rcases Nat.lt_or_ge i (n - 1) with early | late
    · rw [same i early]
      exact factors.diagonal i early
    · obtain rfl : i = n - 1 := by omega
      simp [t]
  have solved := fun i within =>
    backward_eq (y := fun i => if i = n - 1 then 1 else 0) diagonal le_rfl (i := i) (by omega) within
  generalize backward t n (fun i => if i = n - 1 then 1 else 0) n = x at solved
  have one : x (n - 1) = 1 := by
    have last := solved (n - 1) inside
    rw [show Finset.Ico (n - 1) n = {n - 1} by ext j; simp; omega, Finset.sum_singleton] at last
    simpa [t] using last
  have kernel : ∀ i < n, ∑ j ∈ Finset.Ico i n, s.a i j * x j = 0 := by
    intro i within
    rcases Nat.lt_or_ge i (n - 1) with early | late
    · have row := solved i within
      rw [if_neg early.ne] at row
      simpa only [same i early] using row
    · obtain rfl : i = n - 1 := by omega
      rw [show Finset.Ico (n - 1) n = {n - 1} by ext j; simp; omega, Finset.sum_singleton, zero,
        zero_mul]
  have none := nonsingular x fun r within => by
    obtain ⟨i, inRange, rfl⟩ := factors.permutes r within
    rw [factors.apply_eq x inRange, kernel i inRange, add_zero]
    refine Finset.sum_eq_zero fun m early => ?_
    rw [kernel m (by have := Finset.mem_range.mp early; omega), mul_zero]
  rw [none (n - 1) inside] at one
  exact zero_ne_one one

omit [LinearOrder K] [IsStrictOrderedRing K] in
/-- The substitutions solve the system if no entry of the diagonal is zero. -/
theorem Factors.lusolve_of_diagonal (factors : Factors c n (n - 1) s)
    (diagonal : ∀ i < n, s.a i i ≠ 0) (b : ℕ → K) :
    ∀ r < n, matApply (Finset.range n) c (lusolve s n b) r = b r := by
  intro r within
  obtain ⟨i, inside, rfl⟩ := factors.permutes r within
  have rows : ∀ i < n, ∑ j ∈ Finset.Ico i n, s.a i j * lusolve s n b j = forward s b n i :=
    fun i inside => backward_eq diagonal le_rfl (by omega) inside
  rw [factors.apply_eq _ inside, rows i inside, ← forward_eq (s := s) (b := b) inside, add_comm]
  congr 1
  refine Finset.sum_congr rfl fun m early => ?_
  rw [rows m (by have := Finset.mem_range.mp early; omega)]

omit [LinearOrder K] [IsStrictOrderedRing K] in
/-- **Solution.** On a nonsingular matrix the substitutions solve the system. -/
theorem Factors.lusolve_solves (factors : Factors c n (n - 1) s) (nonsingular : Nonsingular c n)
    (b : ℕ → K) : ∀ r < n, matApply (Finset.range n) c (lusolve s n b) r = b r :=
  factors.lusolve_of_diagonal (factors.diagonal_ne_zero nonsingular) b

/-! ## Networks -/

/-- A network whose nodes before `n - 1` are each connected to ground, or to a node that follows,
by a conductance that reaches `DELTA`. -/
def Sturdy (c : ℕ → ℕ → K) (ground : ℕ → K) (n : ℕ) : Prop :=
  ∀ k < n - 1, DELTA ≤ ground k ∨ ∃ j, k < j ∧ j < n ∧ DELTA ≤ -c k j

/-- What is left of the matrix after `k` rounds is a network that conducts no less. -/
structure Reduced (c : ℕ → ℕ → K) (ground : ℕ → K) (n k : ℕ) (s : Decomposition K) : Prop where
  grounded : ∃ ground', Grounded (Finset.Ico k n) s.a ground' ∧
    ∀ i ∈ Finset.Ico k n, ground i ≤ ground' i
  conductance : ∀ i ∈ Finset.Ico k n, ∀ j ∈ Finset.Ico k n, i ≠ j → s.a i j ≤ c i j

variable {ground : ℕ → K}

/-- When the diagonal dominates the column, the pivot stays where it is. -/
theorem findPivot_eq {a : ℕ → ℕ → K} (inside : k < n) (positive : 0 < a k k)
    (dominates : ∀ i, k < i → i < n → |a i k| ≤ a k k) : findPivot a n k = (a k k, k) := by
  obtain ⟨m, rfl⟩ := Nat.exists_eq_add_of_lt inside
  have later : ∀ l : List ℕ, (∀ i ∈ l, |a i k| ≤ a k k) →
      l.foldl (fun best i => if |a i k| > best.1 then (|a i k|, i) else best) (a k k, k) =
        (a k k, k) := by
    intro l bounded
    induction l with
    | nil => rfl
    | cons i l ih =>
      rw [List.foldl_cons, if_neg (bounded i List.mem_cons_self).not_gt]
      exact ih fun i member => bounded i (List.mem_cons_of_mem _ member)
  rw [findPivot, show k + m + 1 - k = m + 1 by omega, List.range'_succ, List.foldl_cons,
    abs_of_pos positive, if_pos positive]
  refine later _ fun i member => ?_
  rw [List.mem_range'_1] at member
  exact dominates i (by omega) (by omega)

/-- One round on a network that is sturdy enough takes its first node out. -/
theorem lupRound_reduced (sturdy : Sturdy c ground n) (reduced : Reduced c ground n k s)
    (left : k < n - 1) : ∃ t, lupRound n s k = .ok t ∧ Reduced c ground n (k + 1) t := by
  obtain ⟨ground', grounded, more⟩ := reduced.grounded
  have split : Finset.Ico k n = insert k (Finset.Ico (k + 1) n) :=
    (Finset.insert_Ico_add_one_left_eq_Ico (by omega)).symm
  have fresh : k ∉ Finset.Ico (k + 1) n := by simp
  have self : k ∈ Finset.Ico k n := Finset.mem_Ico.mpr ⟨le_rfl, by omega⟩
  rw [split] at grounded
  have pivot : DELTA ≤ s.a k k := by
    rcases sturdy k left with toGround | ⟨j, after, inside, resistor⟩
    · exact (toGround.trans (more k self)).trans (grounded.ground_le_diagonal fresh)
    · have kept := reduced.conductance k self j (Finset.mem_Ico.mpr ⟨by omega, inside⟩) (by omega)
      have bound := grounded.neg_le_diagonal fresh (j := j) (Finset.mem_Ico.mpr ⟨after, inside⟩)
      linarith
  have positive : 0 < s.a k k := delta_pos.trans_le pivot
  have found : findPivot s.a n k = (s.a k k, k) := by
    refine findPivot_eq (by omega) positive fun i after inside => ?_
    have member : i ∈ Finset.Ico (k + 1) n := Finset.mem_Ico.mpr ⟨after, inside⟩
    have resistor := grounded.conductance i (Finset.mem_insert_of_mem member) k
      (Finset.mem_insert_self k _) (by omega)
    rw [abs_of_nonpos resistor, grounded.symmetric i (Finset.mem_insert_of_mem member) k
      (Finset.mem_insert_self k _)]
    exact grounded.neg_le_diagonal fresh member
  have unswapped : swapRows s k k = s := by
    simp only [swapRows, Equiv.swap_self, Equiv.refl_apply]
  have large : ¬ near (s.a k k) 0 := by
    rw [near, sub_zero, abs_of_pos positive]
    exact pivot.not_gt
  have cell : ∀ i ∈ Finset.Ico (k + 1) n, ∀ j ∈ Finset.Ico (k + 1) n,
      eliminate s.a k i j = s.a i j - s.a i k / s.a k k * s.a k j := by
    intro i row j col
    have below : i > k := (Finset.mem_Ico.mp row).1
    have right : j > k := (Finset.mem_Ico.mp col).1
    rw [eliminate, if_pos below, if_pos right]
  refine ⟨{ s with a := eliminate s.a k }, ?_, ?_, ?_⟩
  · rw [lupRound, found]
    simp only
    rw [if_neg large, unswapped]
  · refine ⟨_, (grounded.eliminate fresh positive).congr fun i row j col => (cell i row j col).symm,
      fun i row => ?_⟩
    have before := more i (split ▸ Finset.mem_insert_of_mem row)
    have added := grounded.regrounded_nonneg fresh positive row
    linarith
  · intro i row j col apart
    have before := reduced.conductance i (split ▸ Finset.mem_insert_of_mem row) j
      (split ▸ Finset.mem_insert_of_mem col) apart
    have taken := grounded.eliminated_nonneg fresh positive row col
    simp only [cell i row j col]
    linarith

/-- **No stop.** A network that is sturdy enough is decomposed. -/
theorem lupdcmp_ok (grounded : Grounded (Finset.range n) c ground) (sturdy : Sturdy c ground n) :
    ∃ s, lupdcmp c n = .ok s := by
  have start : Reduced c ground n 0 ⟨c, id⟩ := by
    rw [Finset.range_eq_Ico] at grounded
    exact ⟨⟨ground, grounded, fun i _ => le_rfl⟩, fun i _ j _ _ => le_rfl⟩
  have rounds : ∀ m ≤ n - 1, ∃ s, (List.range m).foldlM (lupRound n) ⟨c, id⟩ = .ok s ∧
      Reduced c ground n m s := by
    intro m
    induction m with
    | zero => exact fun _ => ⟨_, rfl, start⟩
    | succ m ih =>
      intro within
      obtain ⟨s, before, reduced⟩ := ih (by omega)
      obtain ⟨t, round, next⟩ := lupRound_reduced sturdy reduced (by omega)
      refine ⟨t, ?_, next⟩
      rw [List.range_succ, List.foldlM_append, before]
      simp only [List.foldlM_cons, List.foldlM_nil, bind_pure]
      exact round
  obtain ⟨s, decomposed, -⟩ := rounds (n - 1) le_rfl
  exact ⟨s, decomposed⟩

end GpuHotSpot.HotSpotTool.LinearSolver
