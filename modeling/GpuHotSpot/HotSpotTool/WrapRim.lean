import GpuHotSpot.HotSpotTool.WrapL2
import GpuHotSpot.Lib.TilingFrame

/-!
# The rim of the chip

`flp_wrap_rim` adds one block along each border a unit is on; the block at a corner goes on to the
next border, clockwise. The loop is over the units, and each border is tested by itself.

* `rimBlocks_rects`: the blocks of a unit are the pieces of the frame at it.
* `flpWrapRim_tiles`: the units and the rim tile the chip.
-/

namespace GpuHotSpot.HotSpotTool.Flp

open scoped Literals

variable {K : Type} [Field K] [LinearOrder K]

def RIM_LEFT_STR : Text := "RIM_left".toList
def RIM_RIGHT_STR : Text := "RIM_right".toList
def RIM_TOP_STR : Text := "RIM_top".toList
def RIM_BOTTOM_STR : Text := "RIM_bottom".toList

/-- The format `"%s_%s"` for the name of a rim block. -/
def rimName (side name : Text) : Text := side ++ "_".toList ++ name

section Blocks

variable (eq : K → K → Prop) [DecidableRel eq] (width height rimThickness : K)

/-- The block on the western border. -/
def rimLeft (unit : PlacedUnit K) : List (PlacedUnit K) :=
  if eq unit.leftx rimThickness then
    [⟨⟨0, unit.bottomy, rimThickness,
      -- northwest corner
      if eq (unit.bottomy + unit.height) (height - rimThickness) then unit.height + rimThickness
      else unit.height⟩, rimName RIM_LEFT_STR unit.name⟩]
  else []

/-- The block on the eastern border. -/
def rimRight (unit : PlacedUnit K) : List (PlacedUnit K) :=
  if eq (unit.leftx + unit.width) (width - rimThickness) then
    -- southeast corner
    let corner := eq unit.bottomy rimThickness
    [⟨⟨unit.leftx + unit.width, if corner then 0 else unit.bottomy, rimThickness,
      if corner then unit.height + rimThickness else unit.height⟩,
      rimName RIM_RIGHT_STR unit.name⟩]
  else []

/-- The block on the northern border. -/
def rimTop (unit : PlacedUnit K) : List (PlacedUnit K) :=
  if eq (unit.bottomy + unit.height) (height - rimThickness) then
    [⟨⟨unit.leftx, unit.bottomy + unit.height,
      -- northeast corner
      if eq (unit.leftx + unit.width) (width - rimThickness) then unit.width + rimThickness
      else unit.width, rimThickness⟩, rimName RIM_TOP_STR unit.name⟩]
  else []

/-- The block on the southern border. -/
def rimBottom (unit : PlacedUnit K) : List (PlacedUnit K) :=
  if eq unit.bottomy rimThickness then
    -- southwest corner
    let corner := eq unit.leftx rimThickness
    [⟨⟨if corner then 0 else unit.leftx, 0,
      if corner then unit.width + rimThickness else unit.width, rimThickness⟩,
      rimName RIM_BOTTOM_STR unit.name⟩]
  else []

/-- The rim blocks of a unit, in the order of the tests. -/
def rimBlocks (unit : PlacedUnit K) : List (PlacedUnit K) :=
  rimLeft eq height rimThickness unit ++ rimRight eq width rimThickness unit ++
    rimTop eq width height rimThickness unit ++ rimBottom eq rimThickness unit

end Blocks

/-- `flp_wrap_rim`, for the comparison `eq` of two coordinates: the floorplan with the rim, and the
number of rim blocks. -/
def flpWrapRim (eq : K → K → Prop) [DecidableRel eq] (flp : Floorplan K) (rimThickness : K) :
    Floorplan K × ℕ :=
  let n := flp.units.length
  let width := Block.getTotalWidth flp.rects + 2 * rimThickness
  let height := Block.getTotalHeight flp.rects + 2 * rimThickness
  let units := flpTranslate flp.units rimThickness rimThickness
  let rim := units.flatMap (rimBlocks eq width height rimThickness)
  let wireDensity := (List.range rim.length).foldl (fun density i =>
    (List.range (n + i + 1)).foldl (fun density k =>
      setDensity (setDensity density k (n + i) 0) (n + i) k 0) density) flp.wireDensity
  (⟨units ++ rim, wireDensity⟩, rim.length)

/-- The slots of `flp_placeholder` for a description of so many units: the units, the dead blocks,
the arms of the L2 cache and the rim blocks. -/
def placeholderUnits (nUnits : ℤ) (wrapL2 modelRim : Bool) : ℤ :=
  let nDead := nUnits - (if wrapL2 then 1 else 0) - 1
  let inner := nUnits + nDead + if wrapL2 then (L2_ARMS : ℤ) else 0
  inner + if modelRim then 2 * inner + 2 else 0

/-- The comparisons of `flp_wrap_rim` for a unit find equal what is equal. -/
def ComparesExactly (eq : K → K → Prop) (width height rimThickness : K) (u : Rect K) : Prop :=
  (eq u.leftx rimThickness ↔ u.leftx = rimThickness) ∧
    (eq (u.leftx + u.width) (width - rimThickness) ↔
      u.leftx + u.width = width - rimThickness) ∧
    (eq (u.bottomy + u.height) (height - rimThickness) ↔
      u.bottomy + u.height = height - rimThickness) ∧
    (eq u.bottomy rimThickness ↔ u.bottomy = rimThickness)

section Rim

variable [IsStrictOrderedRing K] {eq : K → K → Prop} [DecidableRel eq] {w h r : K}

omit [IsStrictOrderedRing K] in
/-- The blocks of a unit are the pieces of the frame at it. -/
theorem rimBlocks_rects {unit : PlacedUnit K}
    (exact : ComparesExactly eq (w + 2 * r) (h + 2 * r) r unit.toRect) :
    (rimBlocks eq (w + 2 * r) (h + 2 * r) r unit).map (fun u => u.toRect) =
      framePieces r ⟨r, r, w, h⟩ unit.toRect := by
  have across : w + 2 * r - r = r + w := by ring
  have along : h + 2 * r - r = r + h := by ring
  obtain ⟨west, east, north, south⟩ := exact
  rw [across] at east
  rw [along] at north
  have left : (rimLeft eq (h + 2 * r) r unit).map (fun u => u.toRect) =
      if touchesWest ⟨r, r, w, h⟩ unit.toRect then [westPiece r ⟨r, r, w, h⟩ unit.toRect]
      else [] := by
    simp only [rimLeft, touchesWest, westPiece, along, west, north, sub_self,
      decide_eq_true_eq]
    split_ifs <;> rfl
  have right : (rimRight eq (w + 2 * r) r unit).map (fun u => u.toRect) =
      if touchesEast ⟨r, r, w, h⟩ unit.toRect then [eastPiece r ⟨r, r, w, h⟩ unit.toRect]
      else [] := by
    simp only [rimRight, touchesEast, eastPiece, across, east, south, decide_eq_true_eq]
    split_ifs with onEast onSouth
    · simp only [List.map_singleton, onEast, onSouth, sub_self]
    · simp only [List.map_singleton, onEast]
    · rfl
  have top : (rimTop eq (w + 2 * r) (h + 2 * r) r unit).map (fun u => u.toRect) =
      if touchesNorth ⟨r, r, w, h⟩ unit.toRect then [northPiece r ⟨r, r, w, h⟩ unit.toRect]
      else [] := by
    simp only [rimTop, touchesNorth, northPiece, across, along, east, north, decide_eq_true_eq]
    split_ifs with onNorth onEast
    · simp only [List.map_singleton, onNorth]
    · simp only [List.map_singleton, onNorth]
    · rfl
  have bottom : (rimBottom eq r unit).map (fun u => u.toRect) =
      if touchesSouth ⟨r, r, w, h⟩ unit.toRect then [southPiece r ⟨r, r, w, h⟩ unit.toRect]
      else [] := by
    simp only [rimBottom, touchesSouth, southPiece, west, south, sub_self, decide_eq_true_eq]
    split_ifs with onSouth onWest
    · simp only [List.map_singleton, onWest, sub_self]
    · rfl
    · rfl
  rw [rimBlocks, List.map_append, List.map_append, List.map_append, left, right, top, bottom]
  rfl

omit [IsStrictOrderedRing K] in
/-- The rim is the frame around the translated units. -/
theorem rim_rects {units : List (PlacedUnit K)}
    (exact : ∀ u ∈ units, ComparesExactly eq (w + 2 * r) (h + 2 * r) r u.toRect) :
    (units.flatMap (rimBlocks eq (w + 2 * r) (h + 2 * r) r)).map (fun u => u.toRect) =
      (units.map fun u => u.toRect).flatMap (framePieces r ⟨r, r, w, h⟩) := by
  rw [List.map_flatMap, List.flatMap_map]
  exact List.flatMap_congr fun u member => rimBlocks_rects (exact u member)

/-- **The rim.** For units of positive sizes that tile a rectangle, a rim of positive thickness and
exact comparisons: the units are only translated; they and the rim blocks tile the chip; one of
the blocks has each corner in it; and the rim blocks have slots of the placeholder. -/
theorem flpWrapRim_tiles (eq : K → K → Prop) [DecidableRel eq] (flp : Floorplan K)
    {core : Rect K} (tiles : Tiles core flp.rects) (width : 0 < core.width)
    (height : 0 < core.height) (positive : Positive flp.rects) (thick : 0 < r)
    (exact : ∀ u ∈ flpTranslate flp.units r r,
      ComparesExactly eq (core.width + 2 * r) (core.height + 2 * r) r u.toRect) :
    ∃ rim, (flpWrapRim eq flp r).1.units = flpTranslate flp.units r r ++ rim ∧
      (flpWrapRim eq flp r).2 = rim.length ∧
      (flpTranslate flp.units r r).map (fun u => (u.name, u.width, u.height)) =
        flp.units.map (fun u => (u.name, u.width, u.height)) ∧
      Tiles ⟨r, r, core.width, core.height⟩
        ((flpTranslate flp.units r r).map fun u => u.toRect) ∧
      Tiles ⟨0, 0, core.width + 2 * r, core.height + 2 * r⟩ (flpWrapRim eq flp r).1.rects ∧
      (∀ corner ∈ corners r ⟨r, r, core.width, core.height⟩,
        CoveredOnce (flpWrapRim eq flp r).1.rects corner) ∧ rim.length ≤ 2 * flp.units.length + 2 ∧
      ∀ nUnits wrapL2, (flp.units.length : ℤ) ≤ placeholderUnits nUnits wrapL2 false →
        ((flpWrapRim eq flp r).1.units.length : ℤ) ≤ placeholderUnits nUnits wrapL2 true := by
  set units := flpTranslate flp.units r r with translated
  have moved : Tiles ⟨r, r, core.width, core.height⟩ (units.map fun u => u.toRect) :=
    tiles_flpTranslate tiles width.le height.le r r
  have positive : Positive (units.map fun u => u.toRect) := by
    rw [translated, map_flpTranslate tiles width.le height.le]
    intro q member
    obtain ⟨u, part, rfl⟩ := List.mem_map.mp member
    exact positive u part
  have count : units.length = flp.units.length := List.length_map _
  have wrapped : (flpWrapRim eq flp r).1.units = units ++
      units.flatMap (rimBlocks eq (core.width + 2 * r) (core.height + 2 * r) r) := by
    simp only [flpWrapRim, getTotalWidth_of_tiles tiles width.le height.le,
      getTotalHeight_of_tiles tiles width.le height.le, translated]
  have rects : (flpWrapRim eq flp r).1.rects = (units.map fun u => u.toRect) ++
      (units.map fun u => u.toRect).flatMap
        (framePieces r ⟨r, r, core.width, core.height⟩) := by
    rw [Floorplan.rects, wrapped, List.map_append, rim_rects exact]
  have slots := length_framePieces_le (t := r) moved positive
  rw [← rim_rects exact, List.length_map, List.length_map, count] at slots
  refine ⟨_, wrapped, ?_, ?_, moved, ?_, fun corner member => ?_, slots,
    fun nUnits wrapL2 fits => ?_⟩
  · simp only [flpWrapRim, getTotalWidth_of_tiles tiles width.le height.le,
      getTotalHeight_of_tiles tiles width.le height.le, translated]
  · rw [translated, flpTranslate, List.map_map]
    rfl
  · have chip := tiles_framePieces moved positive thick width height
    rw [sub_self] at chip
    rwa [rects]
  · rw [rects]
    exact coveredOnce_corner moved positive thick width height member
  · rw [wrapped, List.length_append, count]
    simp only [placeholderUnits, Bool.false_eq_true, if_false, if_true] at fits ⊢
    omega

end Rim

/-- Two units side by side. -/
def twoUnits : Floorplan ℚ :=
  ⟨[⟨⟨0, 0, 1, 2⟩, "core".toList⟩, ⟨⟨1, 0, 3, 2⟩, "cache".toList⟩], fun _ _ => 1⟩

theorem flpWrapRim_twoUnits :
    Tiles ⟨0, 0, 1 + 3 + 2 * (1 / 2), 2 + 2 * (1 / 2)⟩ (flpWrapRim near twoUnits (1 / 2)).1.rects ∧
      (flpWrapRim near twoUnits (1 / 2)).1.units.length ≤ 8 := by
  have core : Tiles (⟨0, 0, 1 + 3, 2⟩ : Rect ℚ) twoUnits.rects := by
    have cut : Tiles (⟨0, 0, 1 + 3, 2⟩ : Rect ℚ) [⟨0, 0, 1, 2⟩, ⟨0 + 1, 0, 3, 2⟩] :=
      tiles_columns (by norm_num) (by norm_num) (by norm_num)
    rwa [zero_add] at cut
  have positive : Positive twoUnits.rects := by
    unfold Positive
    decide +kernel
  obtain ⟨rim, units, -, -, -, chip, -, slots, -⟩ :=
    flpWrapRim_tiles near twoUnits core (by norm_num) (by norm_num) positive
      (show (0 : ℚ) < 1 / 2 by norm_num) (by unfold ComparesExactly; decide +kernel)
  refine ⟨chip, ?_⟩
  rw [units, List.length_append]
  have two : (flpTranslate twoUnits.units (1 / 2) (1 / 2)).length = 2 := List.length_map _
  have given : twoUnits.units.length = 2 := rfl
  omega

end GpuHotSpot.HotSpotTool.Flp
