import GpuHotSpot.HotSpotTool.LinearSolver
import GpuHotSpot.Lib.SquareMatrix

/-!
# Decomposition, substitution and inverse

`matinv` of `RCutil.c` decomposes the matrix and solves for the columns of the identity. `lupdcmp`
does not look at the last pivot: a matrix whose other pivots are large enough is decomposed even if
it is singular, and the substitutions then divide by zero.

* `remaining`, `pivotSize`: elimination on paper, without what the code stores in place.
* `lupdcmp_run`: the code follows it, and stops at the first small pivot.
* `inverts_of_pivots`: what the three functions achieve where all pivots are large enough.
* `singular_reported_iff`: exactly when a singular matrix is reported.
-/

namespace GpuHotSpot.HotSpotTool.LinearSolver

open Fallible

variable {K : Type} [Field K]

/-! ## The code -/

/-- The macros `LOWER`, with the ones of the diagonal that are not stored, and `UPPER`. -/
def lower (s : Decomposition K) (i j : ℕ) : K := if i > j then s.a i j else if i = j then 1 else 0

def upper (s : Decomposition K) (i j : ℕ) : K := if i ≤ j then s.a i j else 0

/-- `matinv`, without the accelerated libraries. -/
def matinv [LinearOrder K] (m : ℕ → ℕ → K) (n : ℕ) : Except Fatal (ℕ → ℕ → K) :=
  (lupdcmp m n).map fun s i j => lusolve s n (fun r => if r = j then 1 else 0) i

/-! ## Elimination on paper -/

variable [LinearOrder K]

/-- What is left of the matrix after the first rounds, with the largest entry of each column as its
pivot. -/
def remaining (c : ℕ → ℕ → K) (n : ℕ) : ℕ → ℕ → ℕ → K
  | 0 => c
  | k + 1 =>
    let a := remaining c n k
    let q := (findPivot a n k).2
    fun i j => a (Equiv.swap k q i) j - a (Equiv.swap k q i) k / a q k * a q j

/-- The size of a pivot. -/
def pivotSize (c : ℕ → ℕ → K) (n k : ℕ) : K := (findPivot (remaining c n k) n k).1

variable {c : ℕ → ℕ → K} {n k : ℕ} {s : Decomposition K}

theorem findPivot_congr {a a' : ℕ → ℕ → K} (same : ∀ i, k ≤ i → i < n → a i k = a' i k) :
    findPivot a n k = findPivot a' n k := by
  refine List.foldl_ext _ _ _ fun best i member => ?_
  rw [List.mem_range'_1] at member
  rw [same i member.1 (by omega)]

/-- The code and the elimination on paper agree on what is left. -/
def Agrees (c : ℕ → ℕ → K) (n k : ℕ) (s : Decomposition K) : Prop :=
  ∀ i, k ≤ i → i < n → ∀ j, k ≤ j → s.a i j = remaining c n k i j

variable [IsStrictOrderedRing K]

theorem findPivot_nonneg (a : ℕ → ℕ → K) (inside : k < n) : 0 ≤ (findPivot a n k).1 := by
  rcases (findPivot_spec a inside).1 with none | some
  · exact none.ge
  · exact some ▸ abs_nonneg _

/-- One round. -/
theorem lupRound_agrees (agrees : Agrees c n k s) (left : k < n) :
    (pivotSize c n k < DELTA → lupRound n s k = .error .singularMatrix) ∧
      (DELTA ≤ pivotSize c n k → ∃ t, lupRound n s k = .ok t ∧ Agrees c n (k + 1) t) := by
  have found : findPivot s.a n k = findPivot (remaining c n k) n k :=
    findPivot_congr fun i low high => agrees i low high k le_rfl
  obtain ⟨-, low, high⟩ := findPivot_spec (remaining c n k) left
  have small : near (findPivot s.a n k).1 0 ↔ pivotSize c n k < DELTA := by
    rw [near, sub_zero, found, abs_of_nonneg (findPivot_nonneg _ left), pivotSize]
  constructor
  · intro tiny
    rw [lupRound]
    exact if_pos (small.mpr tiny)
  · intro large
    let q := (findPivot s.a n k).2
    refine ⟨{ swapRows s k q with a := eliminate (swapRows s k q).a k }, ?_,
      fun i below inside j right => ?_⟩
    · rw [lupRound]
      exact if_neg fun tiny => large.not_gt (small.mp tiny)
    have row : k ≤ Equiv.swap k (findPivot (remaining c n k) n k).2 i ∧
        Equiv.swap k (findPivot (remaining c n k) n k).2 i < n := by
      rw [Equiv.swap_apply_def]
      split_ifs <;> omega
    simp only [q, found, eliminate, if_pos (show i > k from below), if_pos (show j > k from right), swapRows,
      Equiv.swap_apply_left, remaining]
    rw [agrees _ row.1 row.2 j (by omega), agrees _ row.1 row.2 k le_rfl,
      agrees _ low high j (by omega), agrees _ low high k le_rfl]

/-- The code stops at the first pivot before the last that is too small, and only there. -/
theorem lupdcmp_run (c : ℕ → ℕ → K) (n : ℕ) :
    ((∃ k < n - 1, pivotSize c n k < DELTA) → lupdcmp c n = .error .singularMatrix) ∧
      ((∀ k < n - 1, DELTA ≤ pivotSize c n k) →
        ∃ s, lupdcmp c n = .ok s ∧ Agrees c n (n - 1) s) := by
  have rounds : ∀ m ≤ n - 1,
      ((∃ k < m, pivotSize c n k < DELTA) →
        (List.range m).foldlM (lupRound n) ⟨c, id⟩ = .error .singularMatrix) ∧
      ((∀ k < m, DELTA ≤ pivotSize c n k) →
        ∃ s, (List.range m).foldlM (lupRound n) ⟨c, id⟩ = .ok s ∧ Agrees c n m s) := by
    intro m
    induction m with
    | zero =>
      exact fun _ => ⟨fun ⟨k, early, _⟩ => absurd early (Nat.not_lt_zero k),
        fun _ => ⟨_, rfl, fun _ _ _ _ _ => rfl⟩⟩
    | succ m ih =>
      intro within
      obtain ⟨stops, goes⟩ := ih (by omega)
      rw [List.range_succ, List.foldlM_append]
      by_cases earlier : ∃ k < m, pivotSize c n k < DELTA
      · refine ⟨fun _ => by rw [stops earlier]; rfl, fun large => ?_⟩
        obtain ⟨k, before, small⟩ := earlier
        exact absurd small (large k (by omega)).not_gt
      · have all : ∀ k < m, DELTA ≤ pivotSize c n k := fun k before =>
          not_lt.mp fun small => earlier ⟨k, before, small⟩
        obtain ⟨s, ran, agrees⟩ := goes all
        obtain ⟨stop, go⟩ := lupRound_agrees agrees (show m < n by omega)
        simp only [ran, ok_bind, List.foldlM_cons, List.foldlM_nil, bind_pure]
        constructor
        · rintro ⟨k, before, small⟩
          obtain rfl : k = m := by
            by_contra other
            exact (all k (by omega)).not_gt small
          exact stop small
        · intro large
          exact go (large m (Nat.lt_succ_self m))
  exact rounds (n - 1) le_rfl

/-- The last pivot is the last entry of the diagonal. -/
theorem Agrees.last (agrees : Agrees c n (n - 1) s) (positive : 1 ≤ n) :
    pivotSize c n (n - 1) = |s.a (n - 1) (n - 1)| := by
  rw [agrees (n - 1) le_rfl (by omega) (n - 1) le_rfl, pivotSize, findPivot,
    show n - (n - 1) = 1 by omega]
  simp only [List.range'_one, List.foldl_cons, List.foldl_nil]
  split_ifs with some
  · rfl
  · exact le_antisymm (abs_nonneg _) (not_lt.mp some)

/-! ## The factors -/

section Factors

omit [LinearOrder K] [IsStrictOrderedRing K]

/-- The permutation vector permutes the rows. -/
theorem Factors.bijOn (factors : Factors c n k s) : Set.BijOn s.p (Set.Iio n) (Set.Iio n) := by
  have covered : Finset.range n ⊆ (Finset.range n).image s.p := fun r inside => by
    obtain ⟨i, row, same⟩ := factors.permutes r (Finset.mem_range.mp inside)
    exact Finset.mem_image.mpr ⟨i, Finset.mem_range.mpr row, same⟩
  have image : Finset.range n = (Finset.range n).image s.p :=
    Finset.eq_of_subset_of_card_le covered Finset.card_image_le
  have injective : Set.InjOn s.p (Finset.range n) :=
    Finset.card_image_iff.mp (congrArg Finset.card image.symm)
  rw [Finset.coe_range] at injective
  refine ⟨fun i row => ?_, injective, fun r row => ?_⟩
  · have member := Finset.mem_image_of_mem s.p (Finset.mem_range.mpr row)
    rw [← image] at member
    exact Finset.mem_range.mp member
  · obtain ⟨i, inside, same⟩ := factors.permutes r row
    exact ⟨i, inside, same⟩

/-- The factors multiply out to the permuted matrix. -/
theorem Factors.lower_upper (factors : Factors c n (n - 1) s) {i j : ℕ} (row : i < n)
    (column : j < n) : c (s.p i) j = ∑ m ∈ Finset.range n, lower s i m * upper s m j := by
  have split : Finset.range n = insert i (Finset.range i ∪ Finset.Ico (i + 1) n) := by
    ext m
    simp only [Finset.mem_range, Finset.mem_insert, Finset.mem_union, Finset.mem_Ico]
    omega
  have right : ∑ m ∈ Finset.Ico (i + 1) n, lower s i m * upper s m j = 0 := by
    refine Finset.sum_eq_zero fun m later => ?_
    have after := (Finset.mem_Ico.mp later).1
    rw [lower, if_neg (by omega), if_neg (by omega), zero_mul]
  have left : ∑ m ∈ Finset.range i, lower s i m * upper s m j =
      ∑ m ∈ Finset.range i, if m ≤ j then s.a i m * s.a m j else 0 := by
    refine Finset.sum_congr rfl fun m earlier => ?_
    rw [lower, if_pos (Finset.mem_range.mp earlier), upper, mul_ite, mul_zero]
  rw [factors.product i row j column, min_eq_left (by omega), split,
    Finset.sum_insert (by simp), Finset.sum_union ?_, right, left, lower, if_neg (lt_irrefl i),
    if_pos rfl, one_mul, upper, add_zero, add_comm]
  rw [Finset.disjoint_left]
  intro m early late
  have before := Finset.mem_range.mp early
  have after := (Finset.mem_Ico.mp late).1
  omega

end Factors

/-- What is achieved for a matrix: a permutation and factors, every solution, and the inverse. -/
structure Inverts (c : ℕ → ℕ → K) (n : ℕ) (s : Decomposition K) : Prop where
  decomposed : lupdcmp c n = .ok s
  permutation : Set.BijOn s.p (Set.Iio n) (Set.Iio n)
  product : ∀ i < n, ∀ j < n, c (s.p i) j = ∑ m ∈ Finset.range n, lower s i m * upper s m j
  solves : ∀ b, ∀ r < n, matApply (Finset.range n) c (lusolve s n b) r = b r
  inverse : ∃ inv, matinv c n = .ok inv ∧ IsInverse c inv n

/-- **All three functions are correct** where the pivots are large enough. -/
theorem inverts_of_pivots (c : ℕ → ℕ → K) {n : ℕ} (positive : 1 ≤ n)
    (large : ∀ k < n, DELTA ≤ pivotSize c n k) : ∃ s, Inverts c n s := by
  obtain ⟨s, ran, agrees⟩ := (lupdcmp_run c n).2 fun k early => large k (by omega)
  have factors : Factors c n (n - 1) s := (lupdcmp_factors c n).of_ok ran
  have diagonal : ∀ i < n, s.a i i ≠ 0 := by
    intro i inside
    rcases Nat.lt_or_ge i (n - 1) with early | late
    · exact factors.diagonal i early
    · obtain rfl : i = n - 1 := by omega
      refine abs_pos.mp (delta_pos.trans_le ?_)
      exact (large (n - 1) inside).trans_eq (agrees.last positive)
  have solves := factors.lusolve_of_diagonal diagonal
  refine ⟨s, ran, factors.bijOn, fun i row j column => factors.lower_upper row column, solves,
    _, by rw [matinv, ran, Except.map], IsInverse.of_right fun i row k _ => ?_⟩
  exact solves (fun r => if r = k then 1 else 0) i row

/-- What the functions are to do on a matrix. -/
def Meets (c : ℕ → ℕ → K) (n : ℕ) : Prop :=
  ((∀ k < n, DELTA < pivotSize c n k) → ∃ s, Inverts c n s) ∧
    (¬Nonsingular c n → lupdcmp c n = .error .singularMatrix)

/-- **Exactly when they do it**: unless the matrix is singular and every pivot before the last is
large enough. -/
theorem singular_reported_iff (c : ℕ → ℕ → K) {n : ℕ} (positive : 1 ≤ n) :
    Meets c n ↔ Nonsingular c n ∨ ∃ k < n - 1, pivotSize c n k < DELTA := by
  have correct : (∀ k < n, DELTA < pivotSize c n k) → ∃ s, Inverts c n s := fun large =>
    inverts_of_pivots c positive fun k inside => (large k inside).le
  obtain ⟨stops, goes⟩ := lupdcmp_run c n
  constructor
  · rintro ⟨-, reports⟩
    by_contra neither
    obtain ⟨singular, none⟩ := not_or.mp neither
    obtain ⟨s, ran, -⟩ := goes fun k early => not_lt.mp fun small => none ⟨k, early, small⟩
    rw [reports singular] at ran
    cases ran
  · rintro (nonsingular | small)
    · exact ⟨correct, fun singular => absurd nonsingular singular⟩
    · exact ⟨correct, fun _ => stops small⟩

/-- The identity of order two. -/
theorem singular_reported_identity :
    Meets (fun i j => if i = j then (1 : ℚ) else 0) 2 := by
  refine (singular_reported_iff _ (by decide)).mpr (.inl fun x zero i inside => ?_)
  have row := zero i inside
  simpa [matApply, inside] using row

/-- Two equal rows: the first pivot is 1, the second one is 0, and nothing is reported. -/
theorem singular_unreported : ¬∀ (c : ℕ → ℕ → ℚ) (n : ℕ), 1 ≤ n → Meets c n := by
  intro all
  have singular : ¬Nonsingular (fun _ _ => (1 : ℚ)) 2 := fun nonsingular => by
    have zero := nonsingular (fun i => if i = 0 then 1 else -1)
      (fun i _ => by simp [matApply, Finset.sum_range_succ]) 0 (by decide)
    simp at zero
  obtain ⟨s, ran, -⟩ := (lupdcmp_run (fun _ _ => (1 : ℚ)) 2).2 fun k early => by
    obtain rfl : k = 0 := by omega
    norm_num [pivotSize, findPivot, remaining, DELTA, List.range'_succ]
  rw [(all (fun _ _ => 1) 2 (by decide)).2 singular] at ran
  cases ran

end GpuHotSpot.HotSpotTool.LinearSolver
