import GpuHotSpot.Lib.Tiling
import Mathlib.MeasureTheory.Measure.Lebesgue.Basic
import Mathlib.MeasureTheory.Measure.Prod

/-!
# Areas of tilings

The parts that tile a rectangle of the plane have its area between them.

* `Tiles.sum_area`: the areas add up.
-/

namespace GpuHotSpot

open MeasureTheory

namespace Rect

def area (r : Rect ℝ) : ℝ := r.width * r.height

/-- The points of the rectangle, sides included. -/
def closed (r : Rect ℝ) : Set (ℝ × ℝ) :=
  Set.Icc r.leftx (r.leftx + r.width) ×ˢ Set.Icc r.bottomy (r.bottomy + r.height)

/-- The points strictly inside. -/
def interior (r : Rect ℝ) : Set (ℝ × ℝ) :=
  Set.Ioo r.leftx (r.leftx + r.width) ×ˢ Set.Ioo r.bottomy (r.bottomy + r.height)

variable {r : Rect ℝ} {p : ℝ × ℝ}

theorem mem_closed : p ∈ r.closed ↔ r.Contains p.1 p.2 := by
  simp only [closed, Set.mem_prod, Set.mem_Icc, Contains, and_assoc]

theorem mem_interior : p ∈ r.interior ↔ r.Inside p.1 p.2 := by
  simp only [interior, Set.mem_prod, Set.mem_Ioo, Inside, and_assoc]

theorem volume_closed : volume r.closed = ENNReal.ofReal r.width * ENNReal.ofReal r.height := by
  rw [closed, Measure.volume_eq_prod, Measure.prod_prod, Real.volume_Icc, Real.volume_Icc,
    add_sub_cancel_left, add_sub_cancel_left]

theorem volume_interior :
    volume r.interior = ENNReal.ofReal r.width * ENNReal.ofReal r.height := by
  rw [interior, Measure.volume_eq_prod, Measure.prod_prod, Real.volume_Ioo, Real.volume_Ioo,
    add_sub_cancel_left, add_sub_cancel_left]

theorem measurableSet_interior : MeasurableSet r.interior :=
  measurableSet_Ioo.prod measurableSet_Ioo

end Rect

open Rect

variable {r : Rect ℝ} {parts : List (Rect ℝ)}

/-- The rectangle is no larger than its parts together, which overlap in lines only, and so no
larger than it. -/
theorem Tiles.sum_volume (tiles : Tiles r parts) :
    ∑ i : Fin parts.length, volume (parts.get i).closed = volume r.closed := by
  refine le_antisymm ?_ ?_
  · have apart : Pairwise (Function.onFun Disjoint fun i : Fin parts.length =>
        (parts.get i).interior) := by
      intro i j different
      refine Set.disjoint_left.mpr fun p inI inJ => ?_
      have both := And.intro (mem_interior.1 inI) (mem_interior.1 inJ)
      rcases lt_or_gt_of_ne different with less | greater
      · exact List.pairwise_iff_get.mp tiles.apart i j less _ _ both
      · exact List.pairwise_iff_get.mp tiles.apart j i greater _ _ both.symm
    calc ∑ i : Fin parts.length, volume (parts.get i).closed
        = ∑ i : Fin parts.length, volume (parts.get i).interior :=
          Finset.sum_congr rfl fun i _ => volume_closed.trans volume_interior.symm
      _ = volume (⋃ i, (parts.get i).interior) := by
          rw [measure_iUnion apart fun i => measurableSet_interior, tsum_fintype]
      _ ≤ volume r.closed := by
          refine measure_mono (Set.iUnion_subset fun i p inside => ?_)
          obtain ⟨left, right, bottom, top⟩ :=
            tiles.inside (List.get_mem parts i) (mem_interior.1 inside)
          exact mem_closed.2 ⟨left.le, right.le, bottom.le, top.le⟩
  · calc volume r.closed
        ≤ volume (⋃ i : Fin parts.length, (parts.get i).closed) := by
          refine measure_mono fun p inside => Set.mem_iUnion.mpr ?_
          obtain ⟨q, part, contains⟩ := (tiles.covers _ _).mp (mem_closed.1 inside)
          obtain ⟨i, rfl⟩ := List.get_of_mem part
          exact ⟨i, mem_closed.2 contains⟩
      _ ≤ ∑ i : Fin parts.length, volume (parts.get i).closed :=
          measure_iUnion_fintype_le _ _

/-- **The areas add up.** -/
theorem Tiles.sum_area (tiles : Tiles r parts) (width : 0 ≤ r.width) (height : 0 ≤ r.height) :
    (parts.map Rect.area).sum = r.area := by
  have real : ∀ q : Rect ℝ, 0 ≤ q.width → 0 ≤ q.height → (volume q.closed).toReal = q.area := by
    intro q wide high
    rw [volume_closed, ENNReal.toReal_mul, ENNReal.toReal_ofReal wide, ENNReal.toReal_ofReal high,
      area]
  have finite : ∀ q : Rect ℝ, volume q.closed ≠ ⊤ := by
    intro q
    rw [volume_closed]
    exact ENNReal.mul_ne_top ENNReal.ofReal_ne_top ENNReal.ofReal_ne_top
  have total := congrArg ENNReal.toReal tiles.sum_volume
  rw [ENNReal.toReal_sum fun i _ => finite _, real r width height] at total
  rw [← total, ← List.sum_ofFn]
  congr 1
  refine List.ext_getElem (by simp) fun i first second => ?_
  rw [List.getElem_map, List.getElem_ofFn]
  have part := tiles.nonneg _ (List.getElem_mem (by simpa using first))
  exact (real _ part.1 part.2).symm

end GpuHotSpot
