import Mathlib.Tactic.IntervalCases
import GpuHotSpot.HotSpotTool.LinearSolver
import GpuHotSpot.Lib.InPlaceElimination
import GpuHotSpot.Lib.Largest
import GpuHotSpot.Lib.SquareMatrix

/-!
# Gauss-Jordan elimination

`gaussj` of `util.c`, in exact arithmetic: elimination with full pivoting, in place. The rows are
exchanged such that a pivot comes to lie on the diagonal, and the last loop exchanges the columns
back, from row 1 on: row 0 of the inverse keeps its columns as the pivots left them.

* `search_spec`: the pivot is a largest entry of what is left.
* `gaussj_singular`, `gaussj_nonsingular`: the error, the solution and the columns of the inverse.
* `gaussj_iff`: exactly when the matrix left behind is the inverse.
-/

namespace GpuHotSpot.HotSpotTool.GaussJordan

open Fallible LinearSolver

variable {K : Type} [Field K] [LinearOrder K]

/-! ## The code -/

/-- `fatal ("gaussj: Singular Pressure Matrix\n")`. -/
inductive Fatal
  | singularPressureMatrix
  deriving DecidableEq, Repr

/-- The arguments and the local arrays. `index` holds the pairs `indxr[i]`, `indxc[i]`, the last
round first. -/
structure State (K : Type) where
  a : ℕ → ℕ → K
  b : ℕ → K
  ipiv : ℕ → ℕ
  index : List (ℕ × ℕ)

/-- The search for the pivot: the largest entry so far, its row and its column. Before any entry is
found the position does not matter. -/
def search (a : ℕ → ℕ → K) (ipiv : ℕ → ℕ) (n : ℕ) : K × ℕ × ℕ :=
  (List.range n).foldl (fun best j =>
    if ipiv j ≠ 1 then
      (List.range n).foldl (fun best k =>
        if ipiv k = 0 then if |a j k| ≥ best.1 then (|a j k|, j, k) else best else best) best
    else best) (0, 0, 0)

/-- One round of the main loop. -/
def gaussRound (n : ℕ) (s : State K) : Except Fatal (State K) :=
  let (_, irow, icol) := search s.a s.ipiv n
  let a := fun i => s.a (Equiv.swap irow icol i)
  let b := fun i => s.b (Equiv.swap irow icol i)
  if a icol icol = 0 then .error .singularPressureMatrix
  else
    let pivinv := 1 / a icol icol
    let pivotRow := fun l => (if l = icol then 1 else a icol l) * pivinv
    .ok {
      a := fun ll l =>
        if ll = icol then pivotRow l else (if l = icol then 0 else a ll l) - pivotRow l * a ll icol
      b := fun ll => if ll = icol then b icol * pivinv else b ll - b icol * pivinv * a ll icol
      ipiv := Function.update s.ipiv icol (s.ipiv icol + 1)
      index := (irow, icol) :: s.index }

/-- One round of the last loop, which starts with row 1. -/
def swapColumns (n : ℕ) (a : ℕ → ℕ → K) (pair : ℕ × ℕ) (k j : ℕ) : K :=
  if 1 ≤ k ∧ k < n then a k (Equiv.swap pair.1 pair.2 j) else a k j

def gaussj (a : ℕ → ℕ → K) (n : ℕ) (b : ℕ → K) : Except Fatal (State K) :=
  ((List.range n).foldlM (fun s _ => gaussRound n s) ⟨a, b, fun _ => 0, []⟩).map fun s =>
    { s with a := s.index.foldl (swapColumns n) s.a }

/-! ## The search -/

variable {a : ℕ → ℕ → K} {b : ℕ → K} {ipiv : ℕ → ℕ} {done : Finset ℕ} {n : ℕ} {s : State K}

/-- The entries that the search looks at. -/
def candidates (ipiv : ℕ → ℕ) (n : ℕ) : List (ℕ × ℕ) :=
  ((List.range n).filter fun j => ipiv j ≠ 1).flatMap fun j =>
    ((List.range n).filter fun k => ipiv k = 0).map fun k => (j, k)

theorem search_eq (a : ℕ → ℕ → K) (ipiv : ℕ → ℕ) (n : ℕ) :
    search a ipiv n = (candidates ipiv n).foldl
      (fun best x => if |a x.1 x.2| ≥ best.1 then (|a x.1 x.2|, x) else best) (0, 0, 0) := by
  rw [candidates, List.foldl_flatMap, List.foldl_filter]
  simp only [List.foldl_map, List.foldl_filter, decide_eq_true_eq]
  rfl

/-- The columns in `done` have had their pivots. -/
def Marks (ipiv : ℕ → ℕ) (done : Finset ℕ) : Prop := ∀ j, ipiv j = if j ∈ done then 1 else 0

theorem Marks.mem_candidates (marks : Marks ipiv done) {j k : ℕ} :
    (j, k) ∈ candidates ipiv n ↔ (j < n ∧ j ∉ done) ∧ k < n ∧ k ∉ done := by
  simp [candidates, marks _]

theorem search_congr {a' : ℕ → ℕ → K} (marks : Marks ipiv done)
    (same : ∀ j < n, ∀ k < n, k ∉ done → a j k = a' j k) : search a ipiv n = search a' ipiv n := by
  rw [search_eq, search_eq]
  refine List.foldl_ext _ _ _ fun best x member => ?_
  obtain ⟨⟨row, -⟩, column, left⟩ := marks.mem_candidates.1 member
  rw [same _ row _ column left]

/-- **The pivot** is a largest entry of what is left. -/
theorem search_spec [IsStrictOrderedRing K] (a : ℕ → ℕ → K) (marks : Marks ipiv done) (some : ∃ j < n, j ∉ done) :
    ∃ r c, search a ipiv n = (|a r c|, r, c) ∧ (r < n ∧ r ∉ done) ∧ (c < n ∧ c ∉ done) ∧
      ∀ j < n, j ∉ done → ∀ k < n, k ∉ done → |a j k| ≤ |a r c| := by
  obtain ⟨j, inside, left⟩ := some
  have member := marks.mem_candidates.2 ⟨⟨inside, left⟩, inside, left⟩
  rw [search_eq]
  rcases foldl_keep_spec (fun x : ℕ × ℕ => |a x.1 x.2|) (candidates ipiv n) (0, 0, 0) with
    ⟨-, none⟩ | ⟨⟨r, c⟩, found, same, -, most⟩
  · exact absurd (none _ member) (abs_nonneg _).not_gt
  · obtain ⟨row, column⟩ := marks.mem_candidates.1 found
    exact ⟨r, c, same, row, column, fun j inside left k inside' left' =>
      most (j, k) (marks.mem_candidates.2 ⟨⟨inside, left⟩, inside', left'⟩)⟩

/-- A round, with the pivot that is found. -/
theorem gaussRound_eq {big : K} {r c : ℕ} (found : search s.a s.ipiv n = (big, r, c)) :
    gaussRound n s = if s.a r c = 0 then .error .singularPressureMatrix else .ok {
      a := reduce (fun i => s.a (Equiv.swap r c i)) c
      b := pivotStep (fun i => s.a (Equiv.swap r c i)) c fun i => s.b (Equiv.swap r c i)
      ipiv := Function.update s.ipiv c (s.ipiv c + 1)
      index := (r, c) :: s.index } := by
  rw [gaussRound, found]
  simp only [Equiv.swap_apply_right]
  refine if_congr Iff.rfl rfl (congrArg Except.ok ?_)
  rw [State.mk.injEq]
  refine ⟨funext fun i => funext fun j => ?_, funext fun i => ?_, rfl, rfl⟩
  · rw [reduce]
    simp only [Equiv.swap_apply_right]
  · rw [pivotStep]
    simp only [Equiv.swap_apply_right]
    split_ifs <;> ring

/-! ## Elimination on paper -/

/-- Full pivoting without the columns of the inverse: what is left of the matrix, the columns that
have had their pivots, and the row that lies in each place. -/
structure Paper (K : Type) where
  a : ℕ → ℕ → K
  ipiv : ℕ → ℕ
  rows : Equiv.Perm ℕ

def paperRound (n : ℕ) (e : Paper K) : Paper K :=
  let (_, r, c) := search e.a e.ipiv n
  let a := fun i => e.a (Equiv.swap r c i)
  { a := fun i j => pivotStep a c (fun i => a i j) i
    ipiv := Function.update e.ipiv c (e.ipiv c + 1)
    rows := e.rows * Equiv.swap r c }

/-- The row of the matrix from which full pivoting takes the pivot of a column. -/
def pivotRow (a : ℕ → ℕ → K) (n : ℕ) : Equiv.Perm ℕ :=
  ((paperRound n)^[n] ⟨a, fun _ => 0, 1⟩).rows

/-- The exchanges of the code, as a permutation. -/
def rowsOf : List (ℕ × ℕ) → Equiv.Perm ℕ
  | [] => 1
  | pair :: index => rowsOf index * Equiv.swap pair.1 pair.2

/-! ## The main loop -/

/-- **The invariant.** The stored matrix stands for the equations of the matrix that is given, with
its rows exchanged; no equation is lost, and what is left is what elimination on paper leaves. -/
structure Swept {K : Type} [Field K] (a : ℕ → ℕ → K) (b : ℕ → K) (n : ℕ) (done : Finset ℕ) (s : State K)
    (e : Paper K) : Prop where
  inside : ∀ j ∈ done, j < n
  marks : Marks s.ipiv done
  equations : ∀ x, ∀ i < n, unknowns (Finset.range n) done s.a x i =
    knowns done s.a (fun j => matApply (Finset.range n) a x (rowsOf s.index j)) i
  rhs : ∀ i < n, s.b i = knowns done s.a (fun j => b (rowsOf s.index j)) i
  determined : ∀ y, (∀ i < n, knowns done s.a y i = 0) → ∀ i < n, y i = 0
  rows : ∀ i < n, rowsOf s.index i < n ∧ (rowsOf s.index)⁻¹ i < n
  onPaper : e.ipiv = s.ipiv ∧ e.rows = rowsOf s.index ∧
    ∀ i < n, ∀ j < n, j ∉ done → e.a i j = s.a i j

variable {e : Paper K}

theorem swap_lt {r c i : ℕ} (row : r < n) (column : c < n) (inside : i < n) :
    Equiv.swap r c i < n := by
  rw [Equiv.swap_apply_def]
  split_ifs <;> assumption

/-- **One round** with a pivot that is not zero. -/
theorem Swept.round (swept : Swept a b n done s e) {r c : ℕ}
    (found : search s.a s.ipiv n = (|s.a r c|, r, c)) (row : r < n ∧ r ∉ done)
    (column : c < n ∧ c ∉ done) (pivot : s.a r c ≠ 0) :
    ∃ t, gaussRound n s = .ok t ∧ Swept a b n (insert c done) t (paperRound n e) := by
  set τ := Equiv.swap r c with exchange
  set m := fun i => s.a (τ i) with exchanged
  have nonzero : m c c ≠ 0 := by
    rw [exchanged, exchange]
    simpa using pivot
  have inside {i : ℕ} (low : i < n) : τ i < n := swap_lt row.1 column.1 low
  have twice (i : ℕ) : τ (τ i) = i := Equiv.swap_apply_self r c i
  -- both sides of the equations, with the rows exchanged
  have known (y : ℕ → K) (i : ℕ) : knowns done m (fun j => y (τ j)) i = knowns done s.a y (τ i) :=
    knowns_swapRows row.2 column.2 y i
  have unknown (x : ℕ → K) (i : ℕ) : unknowns (Finset.range n) done m x i =
      unknowns (Finset.range n) done s.a x (τ i) := unknowns_swapRows row.2 column.2 x i
  refine ⟨_, (gaussRound_eq found).trans (if_neg pivot), ?_⟩
  refine ⟨fun j member => ?_, fun j => ?_, fun x i low => ?_, fun i low => ?_,
    fun y zero i low => ?_, fun i low => ?_, ?_⟩
  · rcases Finset.mem_insert.mp member with rfl | before
    · exact column.1
    · exact swept.inside j before
  · have mark := swept.marks
    rcases eq_or_ne j c with rfl | other
    · simp [mark j, column.2]
    · simp [mark j, other]
  · rw [unknowns_reduce nonzero (Finset.mem_range.mpr column.1) column.2, knowns_reduce column.2]
    have sides {i : ℕ} (low : i < n) : unknowns (Finset.range n) done m x i = knowns done m
        (fun j => matApply (Finset.range n) a x (rowsOf s.index (τ j))) i :=
      (unknown x i).trans ((swept.equations x (τ i) (inside low)).trans (known _ i).symm)
    exact pivotStep_congr rfl rfl (sides column.1) (sides low)
  · rw [knowns_reduce column.2]
    have sides {i : ℕ} (low : i < n) : s.b (τ i) = knowns done m
        (fun j => b (rowsOf s.index (τ j))) i :=
      (swept.rhs (τ i) (inside low)).trans (known _ i).symm
    change pivotStep m c (fun i => s.b (τ i)) i = pivotStep m c _ i
    exact pivotStep_congr rfl rfl (sides column.1) (sides low)
  · have none : ∀ i < n, knowns done m y i = 0 := fun i low =>
      pivotStep_injective (· < n) nonzero column.1
        (fun i low => (knowns_reduce column.2 y i).symm.trans (zero i low)) low
    have before := swept.determined (fun j => y (τ j)) fun i low => by
      have here := known (fun j => y (τ j)) (τ i)
      simp only [twice] at here
      rw [← here]
      exact none (τ i) (inside low)
    rw [← twice i]
    exact before (τ i) (inside low)
  · rw [rowsOf, mul_inv_rev, Equiv.swap_inv, Equiv.Perm.mul_apply, Equiv.Perm.mul_apply]
    exact ⟨(swept.rows _ (inside low)).1, inside (swept.rows i low).2⟩
  · obtain ⟨sameMarks, sameRows, same⟩ := swept.onPaper
    have sameSearch : search e.a e.ipiv n = (|s.a r c|, r, c) := by
      rw [sameMarks, search_congr swept.marks same, found]
    rw [paperRound, sameSearch]
    refine ⟨by rw [sameMarks], by rw [sameRows]; rfl, fun i low j low' fresh => ?_⟩
    rw [Finset.mem_insert, not_or] at fresh
    change pivotStep (fun i => e.a (τ i)) c (fun i => e.a (τ i) j) i = reduce m c i j
    rw [reduce_of_ne fresh.1]
    exact pivotStep_congr (same _ (inside column.1) c column.1 column.2)
      (same _ (inside low) c column.1 column.2) (same _ (inside column.1) j low' fresh.2)
      (same _ (inside low) j low' fresh.2)

omit [LinearOrder K] in
/-- A pivot that is zero shows that the matrix is singular. -/
theorem Swept.singular (swept : Swept a b n done s e) {c : ℕ} (column : c < n ∧ c ∉ done)
    (zero : ∀ j < n, j ∉ done → ∀ k < n, k ∉ done → s.a j k = 0) : ¬Nonsingular a n := by
  intro nonsingular
  -- the unknowns of the done columns are chosen to cancel the column
  let x : ℕ → K := fun i => if i ∈ done then -s.a i c else if i = c then 1 else 0
  have single : ∀ i, ∑ j ∈ Finset.range n \ done, s.a i j * x j = s.a i c := by
    intro i
    rw [Finset.sum_eq_single c]
    · simp [x, column.2]
    · intro j member other
      simp [x, other, (Finset.mem_sdiff.mp member).2]
    · intro outside
      exact absurd (Finset.mem_sdiff.mpr ⟨Finset.mem_range.mpr column.1, column.2⟩) outside
  have none : ∀ i < n, unknowns (Finset.range n) done s.a x i = 0 := by
    intro i low
    rw [unknowns, single]
    split_ifs with member
    · simp [x, member]
    · rw [zero_add]
      exact zero i low member c column.1 column.2
  have rows := swept.determined _ fun i low => (swept.equations x i low).symm.trans (none i low)
  have kernel : ∀ r < n, matApply (Finset.range n) a x r = 0 := fun r low => by
    have place : rowsOf s.index ((rowsOf s.index)⁻¹ r) = r := Equiv.apply_symm_apply _ r
    rw [← place]
    exact rows _ (swept.rows r low).2
  have one := nonsingular x kernel c column.1
  simp [x, column.2] at one

variable [IsStrictOrderedRing K]

/-- The main loop: all columns get their pivots, or the matrix is singular. -/
theorem sweep (a : ℕ → ℕ → K) (n : ℕ) (b : ℕ → K) {m : ℕ} (within : m ≤ n) :
    (∃ done s, (List.range m).foldlM (fun s _ => gaussRound n s) ⟨a, b, fun _ => 0, []⟩ = .ok s ∧
      done.card = m ∧ Swept a b n done s ((paperRound n)^[m] ⟨a, fun _ => 0, 1⟩)) ∨
    (List.range m).foldlM (fun s _ => gaussRound n s) ⟨a, b, fun _ => 0, []⟩ =
      .error .singularPressureMatrix ∧ ¬Nonsingular a n := by
  induction m with
  | zero =>
    refine .inl ⟨∅, _, rfl, rfl, by simp, fun j => by simp, fun x i low => ?_, fun i low => ?_,
      fun y zero i low => ?_, fun i low => ⟨low, low⟩, rfl, rfl, fun _ _ _ _ _ => rfl⟩
    · simp [unknowns, knowns, matApply, rowsOf]
    · simp [knowns, rowsOf]
    · simpa [knowns] using zero i low
  | succ m ih =>
    rw [List.range_succ, List.foldlM_append]
    rcases ih (by omega) with ⟨done, s, ran, card, swept⟩ | ⟨stopped, singular⟩
    · have some : ∃ j < n, j ∉ done := by
        by_contra none
        have all : Finset.range n ⊆ done := fun j low =>
          not_not.mp fun left => none ⟨j, Finset.mem_range.mp low, left⟩
        have bound := Finset.card_le_card all
        rw [Finset.card_range, card] at bound
        omega
      obtain ⟨r, c, found, row, column, most⟩ := search_spec s.a swept.marks some
      simp only [ran, ok_bind, List.foldlM_cons, List.foldlM_nil, bind_pure]
      by_cases pivot : s.a r c = 0
      · refine .inr ⟨(gaussRound_eq found).trans (if_pos pivot), ?_⟩
        refine swept.singular column fun j low left k low' left' => ?_
        have small := most j low left k low' left'
        rw [pivot, abs_zero] at small
        exact abs_nonpos_iff.mp small
      · obtain ⟨t, round, next⟩ := swept.round found row column pivot
        refine .inl ⟨insert c done, t, round, ?_, ?_⟩
        · rw [Finset.card_insert_of_notMem column.2, card]
        · rwa [Function.iterate_succ_apply']
    · exact .inr ⟨by rw [stopped]; rfl, singular⟩

/-! ## The result -/

omit [Field K] [LinearOrder K] [IsStrictOrderedRing K] in
/-- The last loop undoes the exchanges, in all rows but row 0. -/
theorem swapColumns_eq (index : List (ℕ × ℕ)) (a : ℕ → ℕ → K) (n k j : ℕ) :
    index.foldl (swapColumns n) a k j =
      if 1 ≤ k ∧ k < n then a k ((rowsOf index)⁻¹ j) else a k j := by
  induction index generalizing a j with
  | nil => simp [rowsOf]
  | cons pair index ih =>
    rw [List.foldl_cons, ih, rowsOf, mul_inv_rev, Equiv.swap_inv, Equiv.Perm.mul_apply]
    simp only [swapColumns]
    split_ifs <;> rfl

omit [LinearOrder K] [IsStrictOrderedRing K] in
/-- When all columns are done, the stored matrix is the inverse but for the order of its columns. -/
theorem Swept.finished (swept : Swept a b n (Finset.range n) s e) :
    IsInverse a (fun k r => s.a k ((rowsOf s.index)⁻¹ r)) n ∧
      ∀ r < n, matApply (Finset.range n) a s.b r = b r := by
  have columns (f : ℕ → K) (i : ℕ) : knowns (Finset.range n) s.a (fun j => f (rowsOf s.index j)) i =
      (if i < n then 0 else f (rowsOf s.index i)) +
        matApply (Finset.range n) (fun k r => s.a k ((rowsOf s.index)⁻¹ r)) f i := by
    rw [knowns, matApply]
    simp only [Finset.mem_range]
    congr 1
    refine Finset.sum_nbij' (rowsOf s.index) ((rowsOf s.index)⁻¹ ·) (fun j low => ?_)
      (fun r low => ?_)
      (fun j _ => Equiv.symm_apply_apply _ j) (fun r _ => Equiv.apply_symm_apply _ r)
      fun j _ => ?_
    · exact Finset.mem_range.mpr (swept.rows j (Finset.mem_range.mp low)).1
    · exact Finset.mem_range.mpr (swept.rows r (Finset.mem_range.mp low)).2
    · exact congrArg (s.a i · * _) (Equiv.symm_apply_apply _ j).symm
  have inverse : IsInverse a (fun k r => s.a k ((rowsOf s.index)⁻¹ r)) n := by
    refine IsInverse.of_left fun i low k low' => ?_
    have row := swept.equations (fun j => if j = k then 1 else 0) i low
    rw [columns (matApply (Finset.range n) a fun j => if j = k then 1 else 0), if_pos low, zero_add,
      unknowns, if_pos (Finset.mem_range.mpr low), sdiff_self, Finset.bot_eq_empty,
      Finset.sum_empty, add_zero] at row
    rw [row]
    refine Finset.sum_congr rfl fun j _ => congrArg (_ * ·) ?_
    simp [matApply, low']
  refine ⟨inverse, fun r low => ?_⟩
  rw [← inverse.symm.apply_apply b low]
  refine Finset.sum_congr rfl fun i member => congrArg (_ * ·) ?_
  have inside := Finset.mem_range.mp member
  rw [swept.rhs i inside, columns b, if_pos inside, zero_add]

/-- **The error** is reported for every singular matrix. -/
theorem gaussj_singular (singular : ¬Nonsingular a n) (b : ℕ → K) :
    gaussj a n b = .error .singularPressureMatrix := by
  rcases sweep a n b le_rfl with ⟨done, s, -, card, swept⟩ | ⟨stopped, -⟩
  · have all : done = Finset.range n := Finset.eq_of_subset_of_card_le
      (fun j member => Finset.mem_range.mpr (swept.inside j member)) (by simp [card])
    obtain ⟨inverse, -⟩ := (all ▸ swept).finished
    exact absurd (fun x zero i low => inverse.eq_zero zero low) singular
  · rw [gaussj, stopped]
    rfl

/-- **What is achieved on a nonsingular matrix**: the solution, and the inverse but for the order of
the entries in its row 0. -/
theorem gaussj_nonsingular (nonsingular : Nonsingular a n) (b : ℕ → K) :
    ∃ s x, gaussj a n b = .ok s ∧ (∀ r < n, matApply (Finset.range n) a s.b r = b r) ∧
      IsInverse a x n ∧ (∀ k, 1 ≤ k → k < n → ∀ j, s.a k j = x k j) ∧
      (∀ c, s.a 0 c = x 0 (pivotRow a n c)) ∧ ∀ c < n, pivotRow a n c < n := by
  rcases sweep a n b le_rfl with ⟨done, s, ran, card, swept⟩ | ⟨-, singular⟩
  · have all : done = Finset.range n := Finset.eq_of_subset_of_card_le
      (fun j member => Finset.mem_range.mpr (swept.inside j member)) (by simp [card])
    subst all
    obtain ⟨inverse, solves⟩ := swept.finished
    have sameRows : pivotRow a n = rowsOf s.index := swept.onPaper.2.1
    refine ⟨{ s with a := s.index.foldl (swapColumns n) s.a }, _, by rw [gaussj, ran, Except.map],
      solves, inverse, fun k one low j => ?_, fun c => ?_, fun c low => ?_⟩
    · exact (swapColumns_eq s.index s.a n k j).trans (if_pos ⟨one, low⟩)
    · refine (swapColumns_eq s.index s.a n 0 c).trans ((if_neg (by omega)).trans ?_)
      rw [sameRows]
      exact congrArg (s.a 0) (Equiv.symm_apply_apply _ c).symm
    · rw [sameRows]
      exact (swept.rows c low).1
  · exact absurd nonsingular singular

/-- What the function is to do: solve and invert, or report. -/
def Meets (a : ℕ → ℕ → K) (n : ℕ) (b : ℕ → K) : Prop :=
  (Nonsingular a n → ∃ s, gaussj a n b = .ok s ∧
      (∀ r < n, matApply (Finset.range n) a s.b r = b r) ∧ IsInverse a s.a n) ∧
    (¬Nonsingular a n → gaussj a n b = .error .singularPressureMatrix)

/-- **Exactly when it does it**: unless the entries of the inverse in row 0 differ that the exchange
of the columns is to swap. -/
theorem gaussj_iff (a : ℕ → ℕ → K) (n : ℕ) (b : ℕ → K) :
    Meets a n b ↔ ∀ x, IsInverse a x n → ∀ c < n, x 0 (pivotRow a n c) = x 0 c := by
  constructor
  · rintro ⟨inverts, -⟩ x inverse c low
    have nonsingular : Nonsingular a n := fun x zero i low => inverse.eq_zero zero low
    obtain ⟨s, ran, -, left⟩ := inverts nonsingular
    obtain ⟨s', x', ran', -, inverse', -, first, bound⟩ := gaussj_nonsingular nonsingular b
    obtain rfl := Except.ok.inj (ran.symm.trans ran')
    have zero : 0 < n := by omega
    rw [inverse.unique inverse' zero (bound c low), ← first c, inverse.unique left zero low]
  · intro same
    refine ⟨fun nonsingular => ?_, fun singular => gaussj_singular singular b⟩
    obtain ⟨s, x, ran, solves, inverse, others, first, -⟩ := gaussj_nonsingular nonsingular b
    refine ⟨s, ran, solves, inverse.congr fun k low c low' => ?_⟩
    rcases Nat.eq_zero_or_pos k with rfl | one
    · rw [first, same x inverse c low']
    · rw [others k one low]

/-- Two equations with the pivot 3 off the diagonal; the entries of the inverse in row 0 are equal. -/
theorem gaussj_two : Meets (fun i j => if i = j then -1 else if i = 1 then 3 else (1 : ℚ)) 2
    fun i => i + 5 := by
  refine (gaussj_iff _ 2 _).mpr fun x inverse c low => ?_
  have first := inverse.right 0 (by omega) 0 (by omega)
  have second := inverse.right 1 (by omega) 0 (by omega)
  have third := inverse.right 0 (by omega) 1 (by omega)
  have fourth := inverse.right 1 (by omega) 1 (by omega)
  norm_num [Finset.sum_range_succ] at first second third fourth
  have same : x 0 1 = x 0 0 := by linarith
  have rows : pivotRow (fun i j => if i = j then -1 else if i = 1 then 3 else (1 : ℚ)) 2 0 = 1 ∧
      pivotRow (fun i j => if i = j then -1 else if i = 1 then 3 else (1 : ℚ)) 2 1 = 0 := by
    decide +kernel
  interval_cases c
  · rw [rows.1, same]
  · rw [rows.2, same]

/-- The pivot 2 is found off the diagonal, and the two entries in row 0 of the inverse are left
exchanged. -/
theorem gaussj_exchanged : ¬∀ (a : ℕ → ℕ → ℚ) (n : ℕ) (b : ℕ → ℚ), Meets a n b := by
  intro all
  let a : ℕ → ℕ → ℚ := fun i j => if j = 0 then 1 else if i = 0 then 2 else 0
  let x : ℕ → ℕ → ℚ := fun i j => if i = 0 then if j = 0 then 0 else 1 else
    if j = 0 then 1 / 2 else -1 / 2
  have inverse : IsInverse a x 2 := IsInverse.of_right fun i low k low' => by
    interval_cases i <;> interval_cases k <;> norm_num [a, x, Finset.sum_range_succ]
  have nonsingular : Nonsingular a 2 := fun v zero i low => inverse.eq_zero zero low
  obtain ⟨s, ran, -, left⟩ := (all a 2 0).1 nonsingular
  obtain ⟨s', x', ran', -, inverse', -, first, -⟩ := gaussj_nonsingular nonsingular 0
  obtain rfl := Except.ok.inj (ran.symm.trans ran')
  have row : pivotRow a 2 0 = 1 := by decide +kernel
  have entry := first 0
  rw [row, ← left.unique inverse' (by decide) (by decide), left.unique inverse (by decide) (by decide),
    left.unique inverse (by decide) (by decide)] at entry
  norm_num [x] at entry

end GpuHotSpot.HotSpotTool.GaussJordan
