import GpuHotSpot.HotSpotTool.Floorplan
import GpuHotSpot.Lib.TilingArea
import Mathlib.Analysis.Real.Sqrt

/-!
# The L2 cache around the core

`flp_wrap_l2` lays the L2 cache below the core and up its two sides. The chip becomes a square if
the square leaves room for it on all three; otherwise the arms and the base get a fixed ratio, and
the arm width is the root of a quadratic.

* `l2Size_spec`: in both cases there are arms and a base, of the area of the cache.
* `flpWrapL2_tiles`: the cache and the core tile the chip.
-/

namespace GpuHotSpot.HotSpotTool.Flp

open scoped Literals

def L2_ARMS : ℕ := 2

/-- `WRAP_L2_RATIO`: the ratio of arm width to base height. -/
def wrapL2Ratio : ℝ := 5

/-- `unplaced_t`: a unit of the description. -/
structure UnplacedUnit where
  name : Text
  area : ℝ

/-- `flp_desc_t`, with the L2 cache behind its last unit. -/
structure FlpDesc where
  units : ℕ → UnplacedUnit
  nUnits : ℕ
  wireDensity : ℕ → ℕ → ℝ

/-- `copy_l2_info`: the names of the base and of the arms, and the densities of all three. -/
def copyL2Info (flp : Floorplan ℝ) (target : ℕ) (desc : FlpDesc) (origin size : ℕ) :
    (Text × Text × Text) × (ℕ → ℕ → ℝ) :=
  let name := (desc.units origin).name
  let unit (density : ℕ → ℕ → ℝ) (row : ℕ) : ℕ → ℕ → ℝ :=
    (List.range size).foldl (fun density j =>
      setDensity (setDensity density row j (desc.wireDensity origin j)) j row
        (desc.wireDensity j origin)) density
  ((name, name ++ "_left".toList, name ++ "_right".toList),
    (List.range (L2_ARMS + 1)).foldl (fun density count => unit density (target + count))
      flp.wireDensity)

/-- The width of the arms, the height of the base and the width of the chip. -/
noncomputable def l2Size (coreArea coreWidth coreHeight l2Area : ℝ) : ℝ × ℝ × ℝ :=
  let totalSide := √(coreArea + l2Area)
  let x := (totalSide - coreWidth) / 2
  let y := totalSide - coreHeight
  if x ≤ 0 ∨ y ≤ 0 then
    if coreWidth ≥ coreHeight then
      let sum := wrapL2Ratio * coreWidth + 2 * coreHeight
      let x := (√(sum * sum + 8 * wrapL2Ratio * l2Area) - sum) / (4 * wrapL2Ratio)
      (x, wrapL2Ratio * x, 2 * x + coreWidth)
    else
      let sum := coreWidth + 2 * wrapL2Ratio * coreHeight
      let y := (√(sum * sum + 8 * wrapL2Ratio * l2Area) - sum) / (4 * wrapL2Ratio)
      (wrapL2Ratio * y, y, 2 * (wrapL2Ratio * y) + coreWidth)
  else (x, y, totalSide)

/-- `flp_wrap_l2`. -/
noncomputable def flpWrapL2 (flp : Floorplan ℝ) (desc : FlpDesc) : Floorplan ℝ :=
  let coreWidth := Block.getTotalWidth flp.rects
  let coreHeight := Block.getTotalHeight flp.rects
  let l2Area := (desc.units desc.nUnits).area
  let (x, y, totalSide) := l2Size (getTotalArea flp.rects) coreWidth coreHeight l2Area
  let core := flpTranslate flp.units x y
  let ((l2, l2Left, l2Right), wireDensity) :=
    copyL2Info flp flp.units.length desc desc.nUnits desc.nUnits
  { units := core ++
      [⟨⟨0, 0, totalSide, y⟩, l2⟩, ⟨⟨0, y, x, coreHeight⟩, l2Left⟩,
        ⟨⟨x + coreWidth, y, x, coreHeight⟩, l2Right⟩]
    wireDensity := wireDensity }

/-! ## The size of the cache -/

section Size

variable {coreWidth coreHeight l2Area : ℝ}

/-- A root of `2 * k * t ^ 2 + sum * t = area`. -/
theorem quadratic_root {k sum area t : ℝ} (ratio : 0 < k) (sumPos : 0 < sum) (areaPos : 0 < area)
    (root : t = (√(sum * sum + 8 * k * area) - sum) / (4 * k)) :
    0 < t ∧ 2 * k * t ^ 2 + sum * t = area := by
  have product : 0 < 8 * k * area := by positivity
  have square : √(sum * sum + 8 * k * area) ^ 2 = sum * sum + 8 * k * area :=
    Real.sq_sqrt (by positivity)
  have larger : sum < √(sum * sum + 8 * k * area) := by
    refine Real.lt_sqrt_of_sq_lt ?_
    linarith [sq sum]
  have solved : 4 * k * t = √(sum * sum + 8 * k * area) - sum := by
    rw [root]
    field_simp
  constructor
  · rw [root]
    exact div_pos (sub_pos.mpr larger) (by positivity)
  · have whole : (4 * k * t + sum) ^ 2 = sum * sum + 8 * k * area := by
      rw [solved, sub_add_cancel, square]
    have scaled : 8 * k * (2 * k * t ^ 2 + sum * t) = 8 * k * area := by
      linear_combination whole
    exact mul_left_cancel₀ (by positivity) scaled

theorem ratio_pos : 0 < wrapL2Ratio := by
  norm_num [wrapL2Ratio]

/-- **The size of the cache.** Arms and base have positive sizes, the chip is wider than the core by
the arms, and its area is that of core and cache. -/
theorem l2Size_spec {x y totalSide : ℝ} (width : 0 < coreWidth) (height : 0 < coreHeight)
    (area : 0 < l2Area)
    (size : l2Size (coreWidth * coreHeight) coreWidth coreHeight l2Area = (x, y, totalSide)) :
    0 < x ∧ 0 < y ∧ totalSide = 2 * x + coreWidth ∧
      totalSide * (y + coreHeight) = coreWidth * coreHeight + l2Area := by
  rw [l2Size] at size
  have ratio := ratio_pos
  split_ifs at size with negative wide
  · -- the base is the larger, by the ratio
    obtain ⟨rfl, rfl, rfl⟩ := by simpa only [Prod.mk.injEq] using size
    obtain ⟨arm, root⟩ := quadratic_root ratio (by positivity) area
      (rfl : (√((wrapL2Ratio * coreWidth + 2 * coreHeight) *
        (wrapL2Ratio * coreWidth + 2 * coreHeight) + 8 * wrapL2Ratio * l2Area) -
        (wrapL2Ratio * coreWidth + 2 * coreHeight)) / (4 * wrapL2Ratio) = _)
    refine ⟨arm, by positivity, rfl, ?_⟩
    linear_combination root
  · obtain ⟨rfl, rfl, rfl⟩ := by simpa only [Prod.mk.injEq] using size
    obtain ⟨base, root⟩ := quadratic_root ratio (by positivity) area
      (rfl : (√((coreWidth + 2 * wrapL2Ratio * coreHeight) *
        (coreWidth + 2 * wrapL2Ratio * coreHeight) + 8 * wrapL2Ratio * l2Area) -
        (coreWidth + 2 * wrapL2Ratio * coreHeight)) / (4 * wrapL2Ratio) = _)
    refine ⟨by positivity, base, rfl, ?_⟩
    linear_combination root
  · obtain ⟨rfl, rfl, rfl⟩ := by simpa only [Prod.mk.injEq] using size
    rw [not_or, not_le, not_le] at negative
    refine ⟨negative.1, negative.2, by ring, ?_⟩
    rw [sub_add_cancel]
    exact Real.mul_self_sqrt (by positivity)

end Size

/-! ## The chip -/

section Chip

variable {core : Rect ℝ} {parts : List (Rect ℝ)}

/-- A base below and an arm on each side of a tiled core complete it to a rectangle. -/
theorem tiles_wrap {x y w h : ℝ} (tiles : Tiles ⟨x, y, w, h⟩ parts) (arm : 0 ≤ x) (base : 0 ≤ y)
    (width : 0 ≤ w) (height : 0 ≤ h) :
    Tiles ⟨0, 0, 2 * x + w, y + h⟩
      (parts ++ [⟨0, 0, 2 * x + w, y⟩, ⟨0, y, x, h⟩, ⟨x + w, y, x, h⟩]) := by
  have rows : Tiles (⟨0, 0, 2 * x + w, y + h⟩ : Rect ℝ)
      [⟨0, 0, 2 * x + w, y⟩, ⟨0, 0 + y, 2 * x + w, h⟩] :=
    tiles_rows (by linarith) base height
  have left : Tiles (⟨0, y, x + (w + x), h⟩ : Rect ℝ) [⟨0, y, x, h⟩, ⟨0 + x, y, w + x, h⟩] :=
    tiles_columns arm (by linarith) height
  have right : Tiles (⟨x, y, w + x, h⟩ : Rect ℝ) [⟨x, y, w, h⟩, ⟨x + w, y, x, h⟩] :=
    tiles_columns width arm height
  rw [zero_add] at rows left
  rw [show x + (w + x) = 2 * x + w by ring] at left
  have upper := (rows.perm (List.Perm.swap _ _ [])).refine left
  have outer := (upper.perm (List.Perm.swap _ _ _)).refine right
  refine (outer.refine tiles).perm (List.Perm.append_left parts ?_)
  -- right arm, left arm, base: in reverse
  exact (List.reverse_perm _).symm

theorem getTotalArea_eq_sum (flp : List (Rect ℝ)) :
    getTotalArea flp = (flp.map Rect.area).sum := by
  have loop : ∀ a : ℝ, flp.foldl (fun area u => area + u.width * u.height) a =
      a + (flp.map Rect.area).sum := by
    induction flp with
    | nil => simp
    | cons u flp ih =>
      intro a
      rw [List.foldl_cons, ih, List.map_cons, List.sum_cons, Rect.area, add_assoc]
  rw [getTotalArea, loop, zero_add]

/-- **The cache and the core.** For a core that tiles a rectangle and an area of the cache, the arms
and the base have positive sizes; the core is only translated; the cache and the core tile the chip;
and base and arms have the area of the cache. -/
theorem flpWrapL2_tiles (flp : Floorplan ℝ) (desc : FlpDesc) (tiles : Tiles core flp.rects)
    (width : 0 < core.width) (height : 0 < core.height) (area : 0 < (desc.units desc.nUnits).area) :
    ∃ x y : ℝ, 0 < x ∧ 0 < y ∧ ∃ l2 l2Left l2Right : PlacedUnit ℝ,
      (flpWrapL2 flp desc).units = flpTranslate flp.units x y ++ [l2, l2Left, l2Right] ∧
      Tiles ⟨x, y, core.width, core.height⟩
        ((flpTranslate flp.units x y).map fun u => u.toRect) ∧
      l2.toRect = ⟨0, 0, 2 * x + core.width, y⟩ ∧ l2Left.toRect = ⟨0, y, x, core.height⟩ ∧
      l2Right.toRect = ⟨x + core.width, y, x, core.height⟩ ∧
      Tiles ⟨0, 0, 2 * x + core.width, y + core.height⟩ (flpWrapL2 flp desc).rects ∧
      l2.area + l2Left.area + l2Right.area = (desc.units desc.nUnits).area := by
  have coreArea : getTotalArea flp.rects = core.width * core.height := by
    rw [getTotalArea_eq_sum]
    exact tiles.sum_area width.le height.le
  have coreWidth := getTotalWidth_of_tiles tiles width.le height.le
  have coreHeight := getTotalHeight_of_tiles tiles width.le height.le
  rcases size : l2Size (core.width * core.height) core.width core.height
    (desc.units desc.nUnits).area with ⟨x, y, totalSide⟩
  obtain ⟨arm, base, side, whole⟩ := l2Size_spec width height area size
  have moved := tiles_flpTranslate tiles width.le height.le x y
  have units : (flpWrapL2 flp desc).units = flpTranslate flp.units x y ++
      [⟨⟨0, 0, totalSide, y⟩, (desc.units desc.nUnits).name⟩,
        ⟨⟨0, y, x, core.height⟩, (desc.units desc.nUnits).name ++ "_left".toList⟩,
        ⟨⟨x + core.width, y, x, core.height⟩,
          (desc.units desc.nUnits).name ++ "_right".toList⟩] := by
    simp only [flpWrapL2, coreArea, coreWidth, coreHeight, size, copyL2Info]
  subst side
  refine ⟨x, y, arm, base, _, _, _, units, moved, rfl, rfl, rfl, ?_, ?_⟩
  · have chip := tiles_wrap moved arm.le base.le width.le height.le
    rw [Floorplan.rects, units, List.map_append]
    exact chip
  · simp only [Rect.area]
    linear_combination whole

end Chip

/-- A core of two units side by side. -/
def coreUnits : Floorplan ℝ :=
  ⟨[⟨⟨0, 0, 1, 2⟩, "core".toList⟩, ⟨⟨1, 0, 3, 2⟩, "cache".toList⟩], fun _ _ => 1⟩

/-- Its description, with a cache of the same area. -/
def coreUnitsDesc : FlpDesc :=
  ⟨fun i => if i = 0 then ⟨"core".toList, 2⟩ else if i = 1 then ⟨"cache".toList, 6⟩ else
    ⟨"L2".toList, 8⟩, 2, fun _ _ => 1⟩

theorem flpWrapL2_coreUnits :
    ∃ x y : ℝ, 0 < x ∧ 0 < y ∧
      Tiles ⟨0, 0, 2 * x + (1 + 3), y + 2⟩ (flpWrapL2 coreUnits coreUnitsDesc).rects := by
  have core : Tiles (⟨0, 0, 1 + 3, 2⟩ : Rect ℝ) coreUnits.rects := by
    have cut : Tiles (⟨0, 0, 1 + 3, 2⟩ : Rect ℝ) [⟨0, 0, 1, 2⟩, ⟨0 + 1, 0, 3, 2⟩] :=
      tiles_columns zero_le_one zero_le_three zero_le_two
    rwa [zero_add] at cut
  obtain ⟨x, y, arm, base, -, -, -, -, -, -, -, -, chip, -⟩ :=
    flpWrapL2_tiles coreUnits coreUnitsDesc core (by norm_num) two_pos
      (by norm_num [coreUnitsDesc])
  exact ⟨x, y, arm, base, chip⟩

end GpuHotSpot.HotSpotTool.Flp
