import GpuHotSpot.HotSpotTool.BlockModel
import GpuHotSpot.Lib.Largest
import GpuHotSpot.Lib.Text

/-!
# Floorplans

Placed units and what `flp.c` measures on all of them. Where the units tile a rectangle, the
measures are those of the rectangle.

* `getTotalWidth_of_tiles`, `getTotalHeight_of_tiles`: the total width and height.
* `tiles_flpTranslate`: a translated floorplan tiles the rectangle at the new origin.
-/

namespace GpuHotSpot.HotSpotTool.Flp

variable {K : Type} [Field K] [LinearOrder K]

/-- `unit_t`: a placed unit. -/
structure PlacedUnit (K : Type) extends Rect K where
  name : Text

/-- `flp_t`: the placed units and the densities of the wires between them. -/
structure Floorplan (K : Type) where
  units : List (PlacedUnit K)
  wireDensity : ℕ → ℕ → K

def Floorplan.rects (flp : Floorplan K) : List (Rect K) := flp.units.map fun u => u.toRect

/-- An assignment to `wire_density`. -/
def setDensity (density : ℕ → ℕ → K) (i j : ℕ) (d : K) : ℕ → ℕ → K :=
  fun p q => if p = i ∧ q = j then d else density p q

/-- `get_total_area`. -/
def getTotalArea (flp : List (Rect K)) : K :=
  flp.foldl (fun area u => area + u.width * u.height) 0

/-- The smallest of a coordinate over the units, as `flp_translate` finds it. -/
def smallest (coordinate : Rect K → K) (flp : List (Rect K)) : K :=
  flp.tail.foldl (fun m u => if m > coordinate u then coordinate u else m)
    (coordinate (Block.unit flp 0))

/-- `flp_translate`. -/
def flpTranslate (units : List (PlacedUnit K)) (x y : K) : List (PlacedUnit K) :=
  let minx := smallest Rect.leftx (units.map fun u => u.toRect)
  let miny := smallest Rect.bottomy (units.map fun u => u.toRect)
  units.map fun u => { u with leftx := u.leftx + (x - minx), bottomy := u.bottomy + (y - miny) }

section Extremes

variable {flp : List (Rect K)} (coordinate : Rect K → K) {extreme : K}

/-- A search over the units starts at the first. -/
theorem foldl_smallest (least : ∀ u ∈ flp, extreme ≤ coordinate u)
    (found : ∃ u ∈ flp, coordinate u = extreme) :
    flp.tail.foldl (fun m u => if coordinate u < m then coordinate u else m)
      (coordinate (Block.unit flp 0)) = extreme := by
  obtain ⟨u, member, same⟩ := found
  cases flp with
  | nil => cases member
  | cons first rest =>
    obtain ⟨bounded, others⟩ := List.forall_mem_cons.mp least
    refine foldl_smaller_eq bounded others ?_
    rcases List.mem_cons.mp member with rfl | later
    · exact .inl same
    · exact .inr ⟨u, later, same⟩

theorem foldl_largest (most : ∀ u ∈ flp, coordinate u ≤ extreme)
    (found : ∃ u ∈ flp, coordinate u = extreme) :
    flp.tail.foldl (fun m u => if coordinate u > m then coordinate u else m)
      (coordinate (Block.unit flp 0)) = extreme := by
  obtain ⟨u, member, same⟩ := found
  cases flp with
  | nil => cases member
  | cons first rest =>
    obtain ⟨bounded, others⟩ := List.forall_mem_cons.mp most
    refine foldl_larger_eq bounded others ?_
    rcases List.mem_cons.mp member with rfl | later
    · exact .inl same
    · exact .inr ⟨u, later, same⟩

end Extremes

/-! ## Floorplans that tile -/

section Tiled

variable [IsStrictOrderedRing K] {r : Rect K} {flp : List (Rect K)} {units : List (PlacedUnit K)}

/-- The sides of a tiled rectangle are sides of units. -/
theorem exists_sides (tiles : Tiles r flp) (width : 0 ≤ r.width) (height : 0 ≤ r.height) :
    (∃ u ∈ flp, u.leftx = r.leftx ∧ u.bottomy = r.bottomy) ∧
      ∃ u ∈ flp, u.leftx + u.width = r.leftx + r.width ∧
        u.bottomy + u.height = r.bottomy + r.height := by
  constructor
  · obtain ⟨u, part, left, -, bottom, -⟩ := (tiles.covers r.leftx r.bottomy).mp
      ⟨le_rfl, le_add_of_nonneg_right width, le_rfl, le_add_of_nonneg_right height⟩
    obtain ⟨leftOf, -, below, -⟩ := tiles.bounds part
    exact ⟨u, part, left.antisymm leftOf, bottom.antisymm below⟩
  · obtain ⟨u, part, -, right, -, top⟩ :=
      (tiles.covers (r.leftx + r.width) (r.bottomy + r.height)).mp
        ⟨le_add_of_nonneg_right width, le_rfl, le_add_of_nonneg_right height, le_rfl⟩
    obtain ⟨-, rightOf, -, above⟩ := tiles.bounds part
    exact ⟨u, part, rightOf.antisymm right, above.antisymm top⟩

theorem smallest_leftx (tiles : Tiles r flp) (width : 0 ≤ r.width) (height : 0 ≤ r.height) :
    smallest Rect.leftx flp = r.leftx := by
  obtain ⟨⟨u, part, left, -⟩, -⟩ := exists_sides tiles width height
  exact foldl_smallest _ (fun u member => (tiles.bounds member).1) ⟨u, part, left⟩

theorem smallest_bottomy (tiles : Tiles r flp) (width : 0 ≤ r.width) (height : 0 ≤ r.height) :
    smallest Rect.bottomy flp = r.bottomy := by
  obtain ⟨⟨u, part, -, bottom⟩, -⟩ := exists_sides tiles width height
  exact foldl_smallest _ (fun u member => (tiles.bounds member).2.2.1) ⟨u, part, bottom⟩

/-- The total width of a tiling. -/
theorem getTotalWidth_of_tiles (tiles : Tiles r flp) (width : 0 ≤ r.width)
    (height : 0 ≤ r.height) : Block.getTotalWidth flp = r.width := by
  obtain ⟨-, u, part, right, -⟩ := exists_sides tiles width height
  have most := foldl_largest (fun u => u.leftx + u.width)
    (fun u member => (tiles.bounds member).2.1) ⟨u, part, right⟩
  have least := smallest_leftx tiles width height
  rw [Block.getTotalWidth]
  refine (congrArg₂ (· - ·) most least).trans ?_
  exact add_sub_cancel_left _ _

/-- The total height of a tiling. -/
theorem getTotalHeight_of_tiles (tiles : Tiles r flp) (width : 0 ≤ r.width)
    (height : 0 ≤ r.height) : Block.getTotalHeight flp = r.height := by
  obtain ⟨-, u, part, -, top⟩ := exists_sides tiles width height
  have most := foldl_largest (fun u => u.bottomy + u.height)
    (fun u member => (tiles.bounds member).2.2.2) ⟨u, part, top⟩
  have least := smallest_bottomy tiles width height
  rw [Block.getTotalHeight]
  refine (congrArg₂ (· - ·) most least).trans ?_
  exact add_sub_cancel_left _ _

/-- A floorplan that tiles a rectangle is moved with it. -/
theorem map_flpTranslate (tiles : Tiles r (units.map fun u => u.toRect)) (width : 0 ≤ r.width)
    (height : 0 ≤ r.height) (x y : K) :
    (flpTranslate units x y).map (fun u => u.toRect) =
      (units.map fun u => u.toRect).map fun q => q.shift (x - r.leftx) (y - r.bottomy) := by
  simp only [flpTranslate, smallest_leftx tiles width height,
    smallest_bottomy tiles width height, List.map_map]
  rfl

/-- **A translated floorplan** tiles the rectangle at the new origin. -/
theorem tiles_flpTranslate (tiles : Tiles r (units.map fun u => u.toRect)) (width : 0 ≤ r.width)
    (height : 0 ≤ r.height) (x y : K) :
    Tiles ⟨x, y, r.width, r.height⟩ ((flpTranslate units x y).map fun u => u.toRect) := by
  have moved := tiles.shift (x - r.leftx) (y - r.bottomy)
  rw [Rect.shift, add_sub_cancel, add_sub_cancel] at moved
  rw [map_flpTranslate tiles width height]
  exact moved

end Tiled

end GpuHotSpot.HotSpotTool.Flp
