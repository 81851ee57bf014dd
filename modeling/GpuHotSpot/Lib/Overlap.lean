import Mathlib.MeasureTheory.Measure.Lebesgue.Basic
import Mathlib.MeasureTheory.Measure.Prod

/-!
# Overlaps of intervals and rectangles

`overlap l r a b` is the length of what the intervals from `l` to `r` and from `a`
to `b` have in common.

* `sum_overlap_cells`: the cells of a ruler cut an interval into its whole length.
* `sum_overlap_of_tiles`: rectangles that tile the plane around a rectangle cut it
  into its whole area.
-/

namespace GpuHotSpot

open MeasureTheory

section Interval

variable {K : Type*} [Field K] [LinearOrder K] [IsStrictOrderedRing K] {l r a b : K}

def overlap (l r a b : K) : K := max 0 (min r b - max l a)

theorem overlap_of_le (meet : max l a ≤ min r b) : overlap l r a b = min r b - max l a :=
  max_eq_right (sub_nonneg.mpr meet)

theorem overlap_of_behind (behind : r ≤ a) : overlap l r a b = 0 :=
  max_eq_left (sub_nonpos.mpr ((min_le_left r b).trans (behind.trans (le_max_right l a))))

theorem overlap_of_before (before : b ≤ l) : overlap l r a b = 0 :=
  max_eq_left (sub_nonpos.mpr ((min_le_right r b).trans (before.trans (le_max_left l a))))

/-- A cell cuts from an interval what lies before its end, less what lies before its start. -/
theorem overlap_cell (ordered : l ≤ r) (x : K) :
    overlap l r x (x + 1) = max 0 (min (r - x) 1) - max 0 (min (l - x) 1) := by
  rcases le_or_gt r x with behind | reaches
  · rw [overlap_of_behind behind, max_eq_left ((min_le_left _ _).trans (by linarith)),
      max_eq_left ((min_le_left _ _).trans (by linarith)), sub_zero]
  · rcases le_or_gt (x + 1) l with before | starts
    · rw [overlap_of_before before, min_eq_right (by linarith : 1 ≤ r - x),
        min_eq_right (by linarith : 1 ≤ l - x), sub_self]
    · have meet : max l x ≤ min r (x + 1) :=
        max_le (le_min ordered starts.le) (le_min reaches.le (by linarith))
      rw [overlap_of_le meet, min_eq_left (by linarith : l - x ≤ 1),
        max_eq_right (le_min (by linarith) zero_le_one)]
      rcases le_total r (x + 1) with inside | outside
      · rw [min_eq_left inside, min_eq_left (by linarith : r - x ≤ 1)]
        rcases le_total l x with early | late
        · rw [max_eq_right early, max_eq_left (by linarith), sub_zero]
        · rw [max_eq_left late, max_eq_right (by linarith)]
          ring
      · rw [min_eq_right outside, min_eq_right (by linarith : 1 ≤ r - x)]
        rcases le_total l x with early | late
        · rw [max_eq_right early, max_eq_left (by linarith)]
          ring
        · rw [max_eq_left late, max_eq_right (by linarith)]
          ring

/-- The cells of a ruler of length `n` cut an interval on it into its length. -/
theorem sum_overlap_cells {n : ℕ} (start : 0 ≤ l) (ordered : l ≤ r) (stop : r ≤ n) :
    ∑ j ∈ Finset.range n, overlap l r j (j + 1) = r - l := by
  have upTo : ∀ (x : K) (n : ℕ), 0 ≤ x →
      ∑ j ∈ Finset.range n, max 0 (min (x - j) 1) = min x n := by
    intro x n nonneg
    induction n with
    | zero => simp [nonneg]
    | succ n ih =>
      rw [Finset.sum_range_succ, ih, Nat.cast_succ]
      rcases le_total x n with inside | outside
      · rw [min_eq_left inside, min_eq_left (by linarith : x ≤ n + 1),
          min_eq_left (by linarith : x - n ≤ 1), max_eq_left (by linarith), add_zero]
      · rw [min_eq_right outside, max_eq_right (le_min (by linarith) zero_le_one),
          ← min_add_add_left, add_sub_cancel]
  rw [Finset.sum_congr rfl fun (j : ℕ) _ => overlap_cell ordered (j : K), Finset.sum_sub_distrib,
    upTo r n (start.trans ordered), upTo l n start, min_eq_left stop,
    min_eq_left (ordered.trans stop)]

end Interval

section Rectangle

variable {ι : Type*} {l r b t : ι → ℝ} {x₁ x₂ y₁ y₂ : ℝ}

/-- The points of a rectangle, with its left and lower sides. -/
def box (l r b t : ℝ) : Set (ℝ × ℝ) := Set.Ico l r ×ˢ Set.Ico b t

theorem mem_box {l r b t : ℝ} {p : ℝ × ℝ} :
    p ∈ box l r b t ↔ (l ≤ p.1 ∧ p.1 < r) ∧ b ≤ p.2 ∧ p.2 < t := Iff.rfl

theorem measurableSet_box {l r b t : ℝ} : MeasurableSet (box l r b t) :=
  measurableSet_Ico.prod measurableSet_Ico

theorem volume_box_inter {l r b t : ℝ} :
    volume.real (box x₁ x₂ y₁ y₂ ∩ box l r b t) = overlap l r x₁ x₂ * overlap b t y₁ y₂ := by
  rw [box, box, Set.prod_inter_prod, Set.Ico_inter_Ico, Set.Ico_inter_Ico,
    Measure.volume_eq_prod, measureReal_prod_prod, Real.volume_real_Ico, Real.volume_real_Ico]
  simp only [overlap, max_comm, min_comm]

/-- **Tiles.** If every point of a rectangle lies in exactly one of finitely many rectangles, what
these have in common with it makes up its area. -/
theorem sum_overlap_of_tiles [Fintype ι] (wide : x₁ ≤ x₂) (high : y₁ ≤ y₂)
    (tiles : ∀ p ∈ box x₁ x₂ y₁ y₂, ∃! u, p ∈ box (l u) (r u) (b u) (t u)) :
    ∑ u, overlap (l u) (r u) x₁ x₂ * overlap (b u) (t u) y₁ y₂ = (x₂ - x₁) * (y₂ - y₁) := by
  have cover : box x₁ x₂ y₁ y₂ =
      ⋃ u, box x₁ x₂ y₁ y₂ ∩ box (l u) (r u) (b u) (t u) := by
    ext p
    simp only [Set.mem_iUnion, Set.mem_inter_iff]
    constructor
    · intro inside
      obtain ⟨u, here, -⟩ := tiles p inside
      exact ⟨u, inside, here⟩
    · rintro ⟨u, inside, -⟩
      exact inside
  have apart : Pairwise (Function.onFun Disjoint fun u =>
      box x₁ x₂ y₁ y₂ ∩ box (l u) (r u) (b u) (t u)) := by
    intro u v different
    refine Set.disjoint_left.mpr fun p inU inV => different ?_
    exact (tiles p inU.1).unique inU.2 inV.2
  have area : volume.real (box x₁ x₂ y₁ y₂) = (x₂ - x₁) * (y₂ - y₁) := by
    rw [← Set.inter_self (box x₁ x₂ y₁ y₂), volume_box_inter, overlap_of_le (by simpa),
      overlap_of_le (by simpa), min_self, max_self, min_self, max_self]
  have finite : ∀ u, volume (box x₁ x₂ y₁ y₂ ∩ box (l u) (r u) (b u) (t u)) ≠ ⊤ := by
    intro u
    refine measure_ne_top_of_subset Set.inter_subset_left ?_
    rw [box, Measure.volume_eq_prod, Measure.prod_prod, Real.volume_Ico, Real.volume_Ico]
    exact ENNReal.mul_ne_top ENNReal.ofReal_ne_top ENNReal.ofReal_ne_top
  calc ∑ u, overlap (l u) (r u) x₁ x₂ * overlap (b u) (t u) y₁ y₂
      = ∑ u, volume.real (box x₁ x₂ y₁ y₂ ∩ box (l u) (r u) (b u) (t u)) :=
        Finset.sum_congr rfl fun u _ => volume_box_inter.symm
    _ = volume.real (⋃ u, box x₁ x₂ y₁ y₂ ∩ box (l u) (r u) (b u) (t u)) := by
        simp_rw [measureReal_def]
        rw [measure_iUnion apart fun u => measurableSet_box.inter measurableSet_box, tsum_fintype,
          ENNReal.toReal_sum fun u _ => finite u]
    _ = (x₂ - x₁) * (y₂ - y₁) := by rw [← cover, area]

end Rectangle

end GpuHotSpot
