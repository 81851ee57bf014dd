import Mathlib.Analysis.Convex.StdSimplex

/-!
# Weighted means

Values that are convex combinations of the values at some points, with weights that do not
depend on the values. `point c s` is what a state `s` has at the point `c`.

* `IsMean.at_point`, `IsMean.mix`: means of means, down to the points.
* `IsMean.const`: points of one value have it as their mean.
* `IsMean.mem_Icc`: a mean does not leave the range of the points.
-/

namespace GpuHotSpot

variable {K S ι : Type*} [Fintype ι]

/-- A value of a state is a convex combination of its values at the points. -/
def IsMean [Semiring K] [PartialOrder K] (point : ι → S → K) (f : S → K) : Prop :=
  ∃ w ∈ stdSimplex K ι, ∀ s, f s = ∑ c, w c * point c s

variable [Ring K] [PartialOrder K] [IsOrderedRing K] {point : ι → S → K} {f g : S → K}

/-- The value at a point. -/
theorem IsMean.at_point [DecidableEq ι] (c : ι) : IsMean point fun s => point c s := by
  refine ⟨Pi.single c 1, single_mem_stdSimplex K c, fun s => ?_⟩
  rw [Finset.sum_eq_single c (fun d _ other => by rw [Pi.single_eq_of_ne other, zero_mul])
    (fun absent => absurd (Finset.mem_univ c) absent), Pi.single_eq_same, one_mul]

/-- A mean of two means. -/
theorem IsMean.mix (first : IsMean point f) (second : IsMean point g) {p q : K} (hp : 0 ≤ p)
    (hq : 0 ≤ q) (total : p + q = 1) : IsMean point fun s => p * f s + q * g s := by
  obtain ⟨v, vMem, f_eq⟩ := first
  obtain ⟨w, wMem, g_eq⟩ := second
  refine ⟨p • v + q • w, convex_stdSimplex K ι vMem wMem hp hq total, fun s => ?_⟩
  simp only [f_eq, g_eq, Finset.mul_sum, ← Finset.sum_add_distrib, Pi.add_apply, Pi.smul_apply,
    smul_eq_mul, add_mul, mul_assoc]

omit [IsOrderedRing K] in
theorem IsMean.const (mean : IsMean point f) {s : S} {x : K} (same : ∀ c, point c s = x) :
    f s = x := by
  obtain ⟨w, ⟨-, total⟩, f_eq⟩ := mean
  rw [f_eq, Finset.sum_congr rfl fun c _ => by rw [same c], ← Finset.sum_mul, total, one_mul]

/-- **A mean stays in the range.** -/
theorem IsMean.mem_Icc (mean : IsMean point f) {s : S} {lo hi : K}
    (range : ∀ c, point c s ∈ Set.Icc lo hi) : f s ∈ Set.Icc lo hi := by
  obtain ⟨w, ⟨nonneg, total⟩, f_eq⟩ := mean
  have whole : ∀ x, ∑ c, w c * x = x := fun x => by rw [← Finset.sum_mul, total, one_mul]
  rw [f_eq]
  constructor
  · calc lo = ∑ c, w c * lo := (whole lo).symm
      _ ≤ ∑ c, w c * point c s :=
        Finset.sum_le_sum fun c _ => mul_le_mul_of_nonneg_left (range c).1 (nonneg c)
  · calc ∑ c, w c * point c s ≤ ∑ c, w c * hi :=
        Finset.sum_le_sum fun c _ => mul_le_mul_of_nonneg_left (range c).2 (nonneg c)
      _ = hi := whole hi

end GpuHotSpot
