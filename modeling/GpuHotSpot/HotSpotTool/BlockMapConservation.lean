import Mathlib.Algebra.BigOperators.Intervals
import GpuHotSpot.HotSpotTool.BlockMap
import GpuHotSpot.Lib.Overlap

/-!
# The block-grid maps conserve

For a floorplan that tiles the die, with edges that are `Clear` of the grid lines or
on them and blocks that are not thinner than `DELTA` cells, the occupancies that
`set_bgmap` lists are the shares of the cells that the blocks cover.

* `occupancy?_eq`: the listed occupancy is the share, `cellShare`.
* `foldlM_mapUnit`: what the maps hold after a number of units.
* `setBgmap_conserves`: power and constants survive the translations.
-/

namespace GpuHotSpot.HotSpotTool.BlockMap

open scoped Literals

variable {K : Type*} [Field K] [LinearOrder K]

/-! ## Floorplans -/

/-- A unit has the point `(x, y)`. Of its sides, the left and the lower one belong to it. -/
def FlpUnit.Contains (unit : FlpUnit K) (x y : K) : Prop :=
  (unit.leftx ≤ x ∧ x < unit.leftx + unit.width) ∧
    unit.bottomy ≤ y ∧ y < unit.bottomy + unit.height

structure GridSize.WellFormed (model : GridSize K) : Prop where
  width : 0 < model.width
  height : 0 < model.height
  rows : 0 < model.rows
  cols : 0 < model.cols

/-- A unit lies on the die. -/
structure FlpUnit.OnDie (model : GridSize K) (unit : FlpUnit K) : Prop where
  width : 0 < unit.width
  height : 0 < unit.height
  left : 0 ≤ unit.leftx
  right : unit.leftx + unit.width ≤ model.width
  bottom : 0 ≤ unit.bottomy
  top : unit.bottomy + unit.height ≤ model.height

/-- The units lie on the die and every point of the die is in exactly one of them. -/
structure Tiles (model : GridSize K) (flp : List (FlpUnit K)) : Prop where
  onDie : ∀ unit ∈ flp, unit.OnDie model
  once : ∀ x y, 0 ≤ x → x < model.width → 0 ≤ y → y < model.height →
    ∃! u : Fin flp.length, flp[u].Contains x y

/-- In cell units, the edges of a unit are integers or at least `DELTA` from one. -/
structure FlpUnit.EdgesClear (model : GridSize K) (unit : FlpUnit K) : Prop where
  left : Clear (unit.leftx / model.cw)
  right : Clear ((unit.leftx + unit.width) / model.cw)
  bottom : Clear (unit.bottomy / model.ch)
  top : Clear ((unit.bottomy + unit.height) / model.ch)

/-- In cell units, a unit is at least `DELTA` wide and high. -/
structure FlpUnit.Thick (model : GridSize K) (unit : FlpUnit K) : Prop where
  width : DELTA ≤ unit.width / model.cw
  height : DELTA ≤ unit.height / model.ch

/-- The share of a cell that a unit covers. -/
def cellShare (model : GridSize K) (unit : FlpUnit K) (i j : ℕ) : K :=
  overlap (unit.leftx / model.cw) ((unit.leftx + unit.width) / model.cw) j (j + 1) *
    overlap (unit.bottomy / model.ch) ((unit.bottomy + unit.height) / model.ch)
      (model.rows - 1 - i) (model.rows - 1 - i + 1)

variable [IsStrictOrderedRing K] {model : GridSize K}

theorem GridSize.WellFormed.cw_pos (wf : model.WellFormed) : 0 < model.cw :=
  div_pos wf.width (Nat.cast_pos.mpr wf.cols)

theorem GridSize.WellFormed.ch_pos (wf : model.WellFormed) : 0 < model.ch :=
  div_pos wf.height (Nat.cast_pos.mpr wf.rows)

theorem GridSize.WellFormed.height_eq (wf : model.WellFormed) :
    model.height = model.rows * model.ch := by
  rw [GridSize.ch, mul_div_cancel₀]
  exact Nat.cast_ne_zero.mpr wf.rows.ne'

theorem GridSize.WellFormed.width_eq (wf : model.WellFormed) :
    model.width = model.cols * model.cw := by
  rw [GridSize.cw, mul_div_cancel₀]
  exact Nat.cast_ne_zero.mpr wf.cols.ne'

/-! ## One direction -/

section Line

variable {l r x size : K}

/-- The tolerance changes no overlap of a unit with a cell that it reaches into. -/
theorem snap_eq (left : Clear l) (right : Clear r) (thick : DELTA ≤ r - l) (positive : 0 < size)
    {k : ℤ} (starts : l < k + 1) (reaches : k < r) :
    snap (min (r * size) ((k + 1) * size) - max (l * size) (k * size)) size =
      overlap l r k (k + 1) * size := by
  have small : (0 : K) < DELTA := delta_pos
  have fromLeft : l + DELTA ≤ k + 1 := by
    have := left.add_le (k := k + 1) (by exact_mod_cast starts)
    exact_mod_cast this
  have toRight := right.le_sub reaches
  have meet : max l k ≤ min r (k + 1) :=
    max_le (le_min (by linarith) (by linarith)) (le_min (by linarith) (by linarith))
  have scaled : min (r * size) ((k + 1) * size) - max (l * size) (k * size) =
      overlap l r k (k + 1) * size := by
    rw [overlap_of_le meet, sub_mul, min_mul_of_nonneg _ _ positive.le,
      max_mul_of_nonneg _ _ positive.le]
  have enough : DELTA ≤ overlap l r k (k + 1) := by
    rw [overlap_of_le meet, le_sub_iff_add_le, add_comm]
    rcases max_cases l (k : K) with ⟨same, -⟩ | ⟨same, -⟩ <;> rw [same] <;>
      refine le_min ?_ ?_ <;> linarith [(by norm_num [DELTA] : (DELTA : K) ≤ 1)]
  rw [scaled, snap, mul_div_cancel_right₀ _ positive.ne']
  have notNothing : ¬near (overlap l r k (k + 1)) 0 := by
    rw [near, sub_zero, abs_of_nonneg (small.le.trans enough)]
    exact not_lt_of_ge enough
  rw [if_neg notNothing]
  split_ifs with nearly
  · -- a cell that is nearly covered has both edges on or behind its grid lines
    suffices full : overlap l r k (k + 1) = 1 by rw [full, one_mul]
    rw [near, abs_sub_comm, abs_lt] at nearly
    have most := nearly.2
    rw [overlap_of_le meet] at most ⊢
    have leftOn : l ≤ k := by
      by_contra inside
      have := left.le_sub (lt_of_not_ge inside)
      linarith [le_max_left l (k : K), min_le_right r (k + 1 : K)]
    have rightOn : k + 1 ≤ r := by
      by_contra inside
      have := right.add_le (k := k + 1) (by exact_mod_cast lt_of_not_ge inside)
      push_cast at this
      linarith [le_max_right l (k : K), min_le_left r (k + 1 : K)]
    rw [max_eq_right leftOn, min_eq_right rightOn]
    ring
  · rfl

end Line

/-! ## One unit -/

/-- What the conservation laws need of a unit. -/
structure FlpUnit.Mappable (model : GridSize K) (unit : FlpUnit K) : Prop where
  onDie : unit.OnDie model
  edges : unit.EdgesClear model
  thick : unit.Thick model

section Unit

variable {unit : FlpUnit K} {i j : ℕ}

theorem FlpUnit.OnDie.columns (onDie : unit.OnDie model) (wf : model.WellFormed) :
    0 ≤ unit.leftx / model.cw ∧ unit.leftx / model.cw < (unit.leftx + unit.width) / model.cw ∧
      (unit.leftx + unit.width) / model.cw ≤ model.cols := by
  refine ⟨div_nonneg onDie.left wf.cw_pos.le, ?_, ?_⟩
  · exact div_lt_div_of_pos_right (by linarith [onDie.width]) wf.cw_pos
  · rw [div_le_iff₀ wf.cw_pos, ← wf.width_eq]
    exact onDie.right

theorem FlpUnit.OnDie.rows (onDie : unit.OnDie model) (wf : model.WellFormed) :
    0 ≤ unit.bottomy / model.ch ∧
      unit.bottomy / model.ch < (unit.bottomy + unit.height) / model.ch ∧
      (unit.bottomy + unit.height) / model.ch ≤ model.rows := by
  refine ⟨div_nonneg onDie.bottom wf.ch_pos.le, ?_, ?_⟩
  · exact div_lt_div_of_pos_right (by linarith [onDie.height]) wf.ch_pos
  · rw [div_le_iff₀ wf.ch_pos, ← wf.height_eq]
    exact onDie.top

variable [FloorRing K]

/-- The cells between the grid lines around a unit. -/
def cellsOf (model : GridSize K) (unit : FlpUnit K) : Glist where
  i1 := (model.rows - ⌈(unit.bottomy + unit.height) / model.ch⌉).toNat
  i2 := (model.rows - ⌊unit.bottomy / model.ch⌋).toNat
  j1 := ⌊unit.leftx / model.cw⌋.toNat
  j2 := ⌈(unit.leftx + unit.width) / model.cw⌉.toNat

/-- The grid lines around an interval on a ruler of length `n`. -/
theorem gridLines {l r : K} {n : ℕ} (start : 0 ≤ l) (ordered : l < r) (stop : r ≤ n) :
    0 ≤ ⌊l⌋ ∧ ⌊l⌋ < ⌈r⌉ ∧ ⌈r⌉ ≤ n := by
  refine ⟨Int.floor_nonneg.mpr start, ?_, Int.ceil_le.mpr (by exact_mod_cast stop)⟩
  have : (⌊l⌋ : K) < ⌈r⌉ := (Int.floor_le l).trans_lt (ordered.trans_le (Int.le_ceil r))
  exact_mod_cast this

theorem cellsOf_inside (wf : model.WellFormed) (onDie : unit.OnDie model) :
    ((cellsOf model unit).i1 < (cellsOf model unit).i2 ∧ (cellsOf model unit).i2 ≤ model.rows) ∧
    (cellsOf model unit).j1 < (cellsOf model unit).j2 ∧ (cellsOf model unit).j2 ≤ model.cols := by
  obtain ⟨left, across, right⟩ := (onDie.columns wf).elim fun start rest =>
    gridLines start rest.1 rest.2
  obtain ⟨bottom, up, top⟩ := (onDie.rows wf).elim fun start rest =>
    gridLines start rest.1 rest.2
  simp only [cellsOf]
  omega

/-- The sanity checks pass. -/
theorem extent_eq (wf : model.WellFormed) (onDie : unit.OnDie model)
    (edges : unit.EdgesClear model) : extent model unit = .ok (cellsOf model unit) := by
  obtain ⟨left, across, right⟩ := (onDie.columns wf).elim fun start rest =>
    gridLines start rest.1 rest.2
  obtain ⟨bottom, up, top⟩ := (onDie.rows wf).elim fun start rest =>
    gridLines start rest.1 rest.2
  simp only [extent, tolerantCeil_eq edges.top, tolerantFloor_eq edges.bottom,
    tolerantFloor_eq edges.left, tolerantCeil_eq edges.right]
  rw [if_neg (by omega), if_neg (by omega), if_neg (by omega)]
  rfl

/-- A unit extends over the cells that it reaches into. -/
theorem covers_iff (wf : model.WellFormed) (onDie : unit.OnDie model) :
    (cellsOf model unit).Covers i j ↔ (unit.bottomy / model.ch < model.rows - 1 - i + 1 ∧
        (model.rows - 1 - i : K) < (unit.bottomy + unit.height) / model.ch) ∧
      unit.leftx / model.cw < j + 1 ∧ (j : K) < (unit.leftx + unit.width) / model.cw := by
  obtain ⟨left, -, -⟩ := (onDie.columns wf).elim fun start rest => gridLines start rest.1 rest.2
  obtain ⟨bottom, -, top⟩ := (onDie.rows wf).elim fun start rest => gridLines start rest.1 rest.2
  have above : (unit.bottomy / model.ch < model.rows - 1 - i + 1) ↔
      ⌊unit.bottomy / model.ch⌋ < (model.rows - i : ℤ) := by
    rw [Int.floor_lt]
    push_cast
    rw [show (model.rows - 1 - i + 1 : K) = model.rows - i by ring]
  have below : ((model.rows - 1 - i : K) < (unit.bottomy + unit.height) / model.ch) ↔
      (model.rows - 1 - i : ℤ) < ⌈(unit.bottomy + unit.height) / model.ch⌉ := by
    rw [Int.lt_ceil]
    push_cast
    rfl
  have behind : (unit.leftx / model.cw < j + 1) ↔ ⌊unit.leftx / model.cw⌋ < (j + 1 : ℤ) := by
    rw [Int.floor_lt]
    push_cast
    rfl
  have before : ((j : K) < (unit.leftx + unit.width) / model.cw) ↔
      (j : ℤ) < ⌈(unit.leftx + unit.width) / model.cw⌉ := by
    rw [Int.lt_ceil]
    push_cast
    rfl
  rw [above, below, behind, before]
  simp only [Glist.Covers, cellsOf]
  omega

/-- A unit has no share of a cell that it does not extend over. -/
theorem cellShare_of_not_covers (wf : model.WellFormed) (onDie : unit.OnDie model)
    (outside : ¬(cellsOf model unit).Covers i j) :
    cellShare model unit i j = 0 := by
  rw [covers_iff wf onDie, not_and_or, not_and_or, not_and_or, not_lt, not_lt, not_lt,
    not_lt] at outside
  rcases outside with (above | below) | before | behind
  · rw [cellShare, overlap_of_before above, mul_zero]
  · rw [cellShare, overlap_of_behind below, mul_zero]
  · rw [cellShare, overlap_of_before before, zero_mul]
  · rw [cellShare, overlap_of_behind behind, zero_mul]

/-- **Occupancies.** The occupancy listed for a cell is the share of it that the unit covers. -/
theorem occupancy?_eq (wf : model.WellFormed) (mappable : unit.Mappable model)
    (covers : (cellsOf model unit).Covers i j) :
    occupancy? model unit (cellsOf model unit) i j = some (cellShare model unit i j) := by
  obtain ⟨⟨bottomCell, topCell⟩, leftCell, rightCell⟩ := (covers_iff wf mappable.onDie).mp covers
  rw [occupancy?]
  split_ifs with interior
  · -- the neighbours of an interior cell are covered too, so the edges lie beyond the cell
    have row : (cellsOf model unit).Covers (i - 1) j ∧ (cellsOf model unit).Covers (i + 1) j := by
      simp only [Glist.Covers] at covers ⊢
      omega
    have column : (cellsOf model unit).Covers i (j - 1) ∧
        (cellsOf model unit).Covers i (j + 1) := by
      simp only [Glist.Covers] at covers ⊢
      omega
    have up := ((covers_iff wf mappable.onDie).mp row.1).1.2
    have down := ((covers_iff wf mappable.onDie).mp row.2).1.1
    have left := ((covers_iff wf mappable.onDie).mp column.1).2.1
    have right := ((covers_iff wf mappable.onDie).mp column.2).2.2
    rw [Nat.cast_sub (by omega), Nat.cast_one] at up left
    rw [Nat.cast_add, Nat.cast_one] at down right
    rw [cellShare, overlap_of_le (max_le (le_min (by linarith) (by linarith))
        (le_min (by linarith) (by linarith))),
      overlap_of_le (max_le (le_min (by linarith) (by linarith))
        (le_min (by linarith) (by linarith))),
      min_eq_right (by linarith), max_eq_right (by linarith),
      min_eq_right (by linarith), max_eq_right (by linarith)]
    congr 1
    ring
  · have ow : snap (min (unit.leftx + unit.width) ((j + 1) * model.cw) -
        max unit.leftx (j * model.cw)) model.cw =
        overlap (unit.leftx / model.cw) ((unit.leftx + unit.width) / model.cw) j (j + 1) *
          model.cw := by
      have snapped := snap_eq (k := j) mappable.edges.left mappable.edges.right
        (by rw [← sub_div, add_sub_cancel_left]; exact mappable.thick.width) wf.cw_pos
        (by exact_mod_cast leftCell) (by exact_mod_cast rightCell)
      rw [div_mul_cancel₀ _ wf.cw_pos.ne', div_mul_cancel₀ _ wf.cw_pos.ne'] at snapped
      exact_mod_cast snapped
    have oh : snap (min (unit.bottomy + unit.height) (model.height - i * model.ch) -
        max unit.bottomy (model.height - (i + 1) * model.ch)) model.ch =
        overlap (unit.bottomy / model.ch) ((unit.bottomy + unit.height) / model.ch)
          (model.rows - 1 - i) (model.rows - 1 - i + 1) * model.ch := by
      have snapped := snap_eq (k := model.rows - 1 - i) mappable.edges.bottom mappable.edges.top
        (by rw [← sub_div, add_sub_cancel_left]; exact mappable.thick.height) wf.ch_pos
        (by push_cast; exact bottomCell) (by push_cast; exact topCell)
      rw [div_mul_cancel₀ _ wf.ch_pos.ne', div_mul_cancel₀ _ wf.ch_pos.ne'] at snapped
      push_cast at snapped
      rw [← snapped, wf.height_eq]
      congr 3 <;> ring
    simp only [ow, oh]
    have nonneg : ∀ l r a b size : K, 0 < size → ¬overlap l r a b * size < 0 := fun l r a b size
      positive => not_lt_of_ge (mul_nonneg (le_max_left _ _) positive.le)
    rw [if_neg (not_or.mpr ⟨nonneg _ _ _ _ _ wf.ch_pos, nonneg _ _ _ _ _ wf.cw_pos⟩), cellShare]
    congr 1
    field_simp [wf.cw_pos.ne', wf.ch_pos.ne']

end Unit

/-! ## The maps of a floorplan -/

section Floorplan

/-- The blocks listed for a cell. -/
def listed (cell : Option (Blist K)) : List (BlistEntry K) :=
  (cell.map (·.blocks)).getD []

/-- What the blocks of a cell add up to, each with its occupancy times `v`. -/
def blockSum (cell : Option (Blist K)) (v : ℕ → K) : K :=
  ((listed cell).map fun entry => entry.occupancy * v entry.idx).sum

omit [IsStrictOrderedRing K] in
/-- A unit that joins a cell adds its occupancy. -/
theorem blockSum_place {layer : FlpLayer K} {cell : Option (Blist K)} {o : Occupant K} {v : ℕ → K} :
    blockSum (some (place model layer cell o)) v = blockSum cell v + o.occupancy * v o.idx := by
  cases cell with
  | none =>
    simp only [blockSum, listed, place, newBlist]
    split_ifs <;> simp
  | some head =>
    simp only [blockSum, listed, place, blistAppend]
    split_ifs <;> simp

variable [FloorRing K] {layer : FlpLayer K}

/-- **The maps after some units**: the cells of each unit, and in each cell the shares that
the units have of it. -/
theorem foldlM_mapUnit (layer : FlpLayer K) (wf : model.WellFormed) (units : List (FlpUnit K × ℕ)) (maps : Maps K)
    (mappable : ∀ unit ∈ units, unit.1.Mappable model) :
    ∃ maps', units.foldlM (mapUnit model layer) maps = .ok maps' ∧
      maps'.g2bmap = maps.g2bmap ++ units.map (fun unit => cellsOf model unit.1) ∧
      ∀ i j v, blockSum (maps'.b2gmap i j) v = blockSum (maps.b2gmap i j) v +
        (units.map fun unit => cellShare model unit.1 i j * v unit.2).sum := by
  induction units generalizing maps with
  | nil => exact ⟨maps, rfl, by simp, by simp⟩
  | cons unit units ih =>
    have this := mappable unit (by simp)
    have all : overlapsAll model unit.1 (cellsOf model unit.1) = true := by
      simp only [overlapsAll, List.all_eq_true, List.mem_range'_1]
      intro i inRows j inCols
      rw [occupancy?_eq wf this (by simp only [Glist.Covers]; omega)]
      rfl
    have step : mapUnit model layer maps unit = .ok {
        g2bmap := maps.g2bmap ++ [cellsOf model unit.1]
        b2gmap := fun i j =>
          if (cellsOf model unit.1).Covers i j then
            (occupancy? model unit.1 (cellsOf model unit.1) i j).map fun occupancy =>
              place model layer (maps.b2gmap i j) (occupant model layer unit.1 unit.2 occupancy)
          else maps.b2gmap i j } := by
      rw [mapUnit, extent_eq wf this.onDie this.edges]
      exact if_pos all
    obtain ⟨maps', run, cells, shares⟩ := ih _ fun u member => mappable u (by simp [member])
    refine ⟨maps', ?_, ?_, fun i j v => ?_⟩
    · rw [List.foldlM_cons, step]
      exact run
    · rw [cells]
      simp
    · rw [shares i j v, List.map_cons, List.sum_cons, ← add_assoc]
      congr 1
      dsimp only
      split_ifs with covers
      · rw [occupancy?_eq wf this covers, Option.map_some, blockSum_place]
        rfl
      · rw [cellShare_of_not_covers wf this.onDie covers, zero_mul, add_zero]

/-- `set_bgmap` reaches no fatal error, and lists the shares of the units. -/
theorem setBgmap_eq (wf : model.WellFormed) (mappable : ∀ unit ∈ layer.flp, unit.Mappable model) :
    ∃ maps, setBgmap model layer = .ok maps ∧ maps.g2bmap = layer.flp.map (cellsOf model) ∧
      ∀ i j v, blockSum (maps.b2gmap i j) v =
        ∑ u : Fin layer.flp.length, cellShare model layer.flp[u] i j * v u := by
  obtain ⟨maps, run, cells, shares⟩ := foldlM_mapUnit layer wf layer.flp.zipIdx
    ⟨fun _ _ => none, []⟩ fun unit member => mappable _ (List.fst_mem_of_mem_zipIdx member)
  refine ⟨maps, run, ?_, fun i j v => ?_⟩
  · refine cells.trans (List.ext_getElem (by simp) fun u inLeft inRight => ?_)
    simp
  · have units : layer.flp.zipIdx.map (fun unit => cellShare model unit.1 i j * v unit.2) =
        List.ofFn fun u : Fin layer.flp.length => cellShare model layer.flp[u] i j * v u := by
      refine List.ext_getElem (by simp) fun u inLeft inRight => ?_
      simp
    rw [shares i j v, units, List.sum_ofFn, blockSum, listed]
    exact zero_add _

/-! ## Conservation -/

/-- A block's shares of the cells add up to its area. -/
theorem sum_cellShare (wf : model.WellFormed) {unit : FlpUnit K} (onDie : unit.OnDie model) :
    ∑ i ∈ Finset.range model.rows, ∑ j ∈ Finset.range model.cols,
      cellShare model unit i j * (model.cw * model.ch) = unit.width * unit.height := by
  obtain ⟨left, across, right⟩ := onDie.columns wf
  obtain ⟨bottom, up, top⟩ := onDie.rows wf
  have columns := sum_overlap_cells left across.le right
  have rows : ∑ i ∈ Finset.range model.rows, overlap (unit.bottomy / model.ch)
      ((unit.bottomy + unit.height) / model.ch) (model.rows - 1 - i) (model.rows - 1 - i + 1) =
      (unit.bottomy + unit.height) / model.ch - unit.bottomy / model.ch := by
    rw [← sum_overlap_cells bottom up.le top, ← Finset.sum_range_reflect fun y : ℕ =>
      overlap (unit.bottomy / model.ch) ((unit.bottomy + unit.height) / model.ch) y (y + 1)]
    refine Finset.sum_congr rfl fun i member => ?_
    have inRows := Finset.mem_range.mp member
    rw [Nat.cast_sub (by omega), Nat.cast_sub (by omega), Nat.cast_one]
  simp only [cellShare]
  have factor : ∀ i ∈ Finset.range model.rows,
      ∑ j ∈ Finset.range model.cols, overlap (unit.leftx / model.cw)
        ((unit.leftx + unit.width) / model.cw) j (j + 1) *
        overlap (unit.bottomy / model.ch) ((unit.bottomy + unit.height) / model.ch)
          (model.rows - 1 - i) (model.rows - 1 - i + 1) * (model.cw * model.ch) =
      overlap (unit.bottomy / model.ch) ((unit.bottomy + unit.height) / model.ch)
          (model.rows - 1 - i) (model.rows - 1 - i + 1) *
        (((unit.leftx + unit.width) / model.cw - unit.leftx / model.cw) *
          (model.cw * model.ch)) := by
    intro i member
    rw [← Finset.sum_mul, ← Finset.sum_mul, columns]
    ring
  rw [Finset.sum_congr rfl factor, ← Finset.sum_mul, rows, ← sub_div, ← sub_div,
    add_sub_cancel_left, add_sub_cancel_left]
  have wide := wf.cw_pos.ne'
  have high := wf.ch_pos.ne'
  field_simp

omit [LinearOrder K] [IsStrictOrderedRing K] [FloorRing K] in
theorem sum_occupancy (cell : Option (Blist K)) :
    ((listed cell).map (·.occupancy)).sum = blockSum cell fun _ => 1 := by
  simp [blockSum]

omit [LinearOrder K] [IsStrictOrderedRing K] [FloorRing K] in
theorem sum_occupancy_of (cell : Option (Blist K)) (u : ℕ) :
    (((listed cell).filter (·.idx = u)).map (·.occupancy)).sum =
      blockSum cell fun u' => if u' = u then 1 else 0 := by
  rw [blockSum]
  induction listed cell with
  | nil => rfl
  | cons entry entries ih =>
    by_cases same : entry.idx = u <;> simp [same, ih]

omit [LinearOrder K] [IsStrictOrderedRing K] [FloorRing K] in
/-- The average of a cell with the power densities of its blocks. -/
theorem blistAvg_power {cell : Option (Blist K)} {flp : List (FlpUnit K)} {v : ℕ → K} :
    blistAvg cell flp v .V_POWER = blockSum cell fun u =>
      v u / (flp[u]?.map fun unit => unit.width * unit.height).getD 0 := by
  cases cell <;> simp [blistAvg, blockSum, listed, mul_div_assoc]

omit [LinearOrder K] [IsStrictOrderedRing K] [FloorRing K] in
theorem blistAvg_temp {cell : Option (Blist K)} {flp : List (FlpUnit K)} {v : ℕ → K} :
    blistAvg cell flp v .V_TEMP = blockSum cell v := by
  cases cell <;> simp [blistAvg, blockSum, listed]

end Floorplan

/-! ## Back from the grid -/

section Back

variable {g : Glist} {temp : ℕ → ℕ → K} {c : K}

/-- A block whose cells all have one temperature gets it, in every mode. -/
theorem blockTemp_const (rows : g.i1 < g.i2) (cols : g.j1 < g.j2)
    (const : ∀ i j, g.Covers i j → temp i j = c) (mode : MapMode) : blockTemp mode temp g = c := by
  have cells : ∀ x ∈ (List.range' g.i1 (g.i2 - g.i1)).flatMap fun i =>
      (List.range' g.j1 (g.j2 - g.j1)).map fun j => temp i j, x = c := by
    intro x member
    simp only [List.mem_flatMap, List.mem_map, List.mem_range'_1] at member
    obtain ⟨i, inRows, j, inCols, rfl⟩ := member
    exact const i j (by simp only [Glist.Covers]; omega)
  have first : temp g.i1 g.j1 = c := const _ _ (by simp only [Glist.Covers]; omega)
  have some : 0 < ((List.range' g.i1 (g.i2 - g.i1)).flatMap fun i =>
      (List.range' g.j1 (g.j2 - g.j1)).map fun j => temp i j).length := by
    refine List.length_pos_of_mem (a := temp g.i1 g.j1) ?_
    simp only [List.mem_flatMap, List.mem_map, List.mem_range'_1]
    exact ⟨g.i1, by omega, g.j1, by omega, rfl⟩
  have folded : ∀ (op : K → K → K) (l : List K), op c c = c → (∀ x ∈ l, x = c) →
      l.foldl op c = c := by
    intro op l idem
    induction l with
    | nil => simp
    | cons x l ih =>
      intro same
      rw [List.foldl_cons, same x (by simp), idem]
      exact ih fun y member => same y (by simp [member])
  cases mode with
  | GRID_AVG =>
    simp only [blockTemp]
    rw [List.eq_replicate_of_mem cells, List.sum_replicate, List.length_replicate, nsmul_eq_mul,
      mul_div_cancel_left₀ _ (Nat.cast_ne_zero.mpr some.ne')]
  | GRID_MIN =>
    simp only [blockTemp, first]
    exact folded min _ (min_self c) cells
  | GRID_MAX =>
    simp only [blockTemp, first]
    exact folded max _ (max_self c) cells
  | GRID_CENTER =>
    simp only [blockTemp]
    have centre : ∀ i j, (i = (g.i1 + g.i2) / 2 ∨
          i = if (g.i2 - g.i1) % 2 = 0 then (g.i1 + g.i2) / 2 - 1 else (g.i1 + g.i2) / 2) →
        (j = (g.j1 + g.j2) / 2 ∨
          j = if (g.j2 - g.j1) % 2 = 0 then (g.j1 + g.j2) / 2 - 1 else (g.j1 + g.j2) / 2) →
        temp i j = c := by
      intro i j row column
      refine const i j ?_
      simp only [Glist.Covers]
      split_ifs at row column <;> omega
    rw [centre _ _ (.inl rfl) (.inl rfl), centre _ _ (.inr rfl) (.inl rfl),
      centre _ _ (.inl rfl) (.inr rfl), centre _ _ (.inr rfl) (.inr rfl)]
    ring

omit [IsStrictOrderedRing K] in
/-- The blocks of layer `n` begin at its base. -/
theorem getElem?_blocks (mode : MapMode) (grid : GridVector K) {layers : List (MappedLayer K)}
    {n u : ℕ} {layer : MappedLayer K} (here : layers[n]? = some layer)
    (cells : layer.maps.g2bmap[u]? = some g) (start : ℕ) :
    (layers.zipIdx start |>.flatMap fun (layer, n) =>
      layer.maps.g2bmap.map fun cells => blockTemp mode (grid.cuboid n) cells)[
        base layers n + u]? = some (blockTemp mode (grid.cuboid (start + n)) g) := by
  induction layers generalizing start n with
  | nil => simp at here
  | cons first rest ih =>
    cases n with
    | zero =>
      obtain rfl : first = layer := by simpa using here
      obtain ⟨inside, -⟩ := List.getElem?_eq_some_iff.mp cells
      rw [List.zipIdx_cons, List.flatMap_cons, List.getElem?_append_left (by simpa [base]),
        base, List.take_zero, List.map_nil, List.sum_nil, zero_add, List.getElem?_map, cells]
      rfl
    | succ n =>
      have later := ih (by simpa using here) (start + 1)
      rw [List.zipIdx_cons, List.flatMap_cons, List.getElem?_append_right (by
        simp [base, first.sized, add_assoc])]
      have skipped : base (first :: rest) (n + 1) + u - first.flp.length = base rest n + u := by
        simp only [base, List.take_succ_cons, List.map_cons, List.sum_cons]
        omega
      rw [List.length_map, first.sized, skipped, later]
      congr 3
      omega

omit [IsStrictOrderedRing K] in
/-- The temperature of a block stands at the base of its layer. -/
theorem getD_xlateTempG2b {model : MappedModel K} {grid : GridVector K} {n u : ℕ}
    {layer : MappedLayer K} (here : model.layers[n]? = some layer)
    (cells : layer.maps.g2bmap[u]? = some g) :
    (xlateTempG2b model grid).getD (base model.layers n + u) 0 =
      blockTemp model.mapMode (grid.cuboid n) g := by
  have found := getElem?_blocks model.mapMode grid here cells 0
  rw [xlateTempG2b, List.getD_eq_getElem?_getD, List.getElem?_append_left, found, zero_add]
  · rfl
  · exact (List.getElem?_eq_some_iff.mp found).1

end Back

/-! ## Tilings -/

section Real

variable {model : GridSize ℝ} {layer : FlpLayer ℝ}

/-- The shares of a cell add up to the cell. -/
theorem sum_cellShare_cell (wf : model.WellFormed) (tiles : Tiles model layer.flp) {i j : ℕ}
    (inRows : i < model.rows) (inCols : j < model.cols) :
    ∑ u : Fin layer.flp.length, cellShare model layer.flp[u] i j = 1 := by
  have rowEnd : ((i : ℝ) + 1) ≤ model.rows := by exact_mod_cast inRows
  have colEnd : ((j : ℝ) + 1) ≤ model.cols := by exact_mod_cast inCols
  have start : (0 : ℝ) ≤ i := Nat.cast_nonneg i
  have first : (0 : ℝ) ≤ j := Nat.cast_nonneg j
  refine (sum_overlap_of_tiles (by linarith) (by linarith) fun p inside => ?_).trans (by ring)
  obtain ⟨⟨left, right⟩, below, above⟩ := mem_box.1 inside
  have point := tiles.once (p.1 * model.cw) (p.2 * model.ch)
    (mul_nonneg (by linarith) wf.cw_pos.le)
    (by rw [wf.width_eq]; exact mul_lt_mul_of_pos_right (by linarith) wf.cw_pos)
    (mul_nonneg (by linarith) wf.ch_pos.le)
    (by rw [wf.height_eq]; exact mul_lt_mul_of_pos_right (by linarith) wf.ch_pos)
  simp only [FlpUnit.Contains, ← div_le_iff₀ wf.cw_pos, ← div_le_iff₀ wf.ch_pos,
    ← lt_div_iff₀ wf.cw_pos, ← lt_div_iff₀ wf.ch_pos] at point
  exact point

/-- **Conservation.** For a floorplan that tiles the die, with clear edges and no block thinner
than `DELTA` cells, no fatal branch is reached, the occupancies of a cell add up to one and those
of a block to its area, the translated power of the layer adds up to its power, and a constant
temperature survives the translation to the grid and, in every mode, back. -/
theorem setBgmap_conserves (wf : model.WellFormed) (tiles : Tiles model layer.flp)
    (clear : ∀ unit ∈ layer.flp, unit.EdgesClear model)
    (thick : ∀ unit ∈ layer.flp, unit.Thick model) :
    ∃ maps, setBgmap model layer = .ok maps ∧ (∀ i < model.rows, ∀ j < model.cols,
        ((listed (maps.b2gmap i j)).map (·.occupancy)).sum = 1) ∧ (∀ u : Fin layer.flp.length,
        ∑ i ∈ Finset.range model.rows, ∑ j ∈ Finset.range model.cols,
          (((listed (maps.b2gmap i j)).filter (·.idx = u.val)).map (·.occupancy)).sum *
            (model.cw * model.ch) = layer.flp[u].width * layer.flp[u].height) ∧
      ∀ (grid : MappedModel ℝ) (n : ℕ) (mapped : MappedLayer ℝ), grid.size = model →
        grid.layers[n]? = some mapped → mapped.flp = layer.flp → mapped.maps = maps → (∀ b : List ℝ,
          ∑ i ∈ Finset.range model.rows, ∑ j ∈ Finset.range model.cols,
            (xlateVectorB2g grid b .V_POWER).cuboid n i j =
          ∑ u ∈ Finset.range layer.flp.length, b.getD (base grid.layers n + u) 0) ∧
        (∀ (b : List ℝ) (c : ℝ), (∀ u < layer.flp.length, b.getD (base grid.layers n + u) 0 = c) →
          ∀ i < model.rows, ∀ j < model.cols, (xlateVectorB2g grid b .V_TEMP).cuboid n i j = c) ∧
        ∀ (g : GridVector ℝ) (c : ℝ), (∀ i < model.rows, ∀ j < model.cols, g.cuboid n i j = c) →
          ∀ u < layer.flp.length, (xlateTempG2b grid g).getD (base grid.layers n + u) 0 = c := by
  have mappable : ∀ unit ∈ layer.flp, unit.Mappable model := fun unit member =>
    ⟨tiles.onDie unit member, clear unit member, thick unit member⟩
  obtain ⟨maps, run, cells, shares⟩ := setBgmap_eq wf mappable
  refine ⟨maps, run, ?_, ?_, ?_⟩
  · intro i inRows j inCols
    rw [sum_occupancy, shares]
    simpa using sum_cellShare_cell wf tiles inRows inCols
  · intro u
    simp only [sum_occupancy_of, shares]
    rw [← sum_cellShare wf (tiles.onDie layer.flp[u] (List.getElem_mem _))]
    refine Finset.sum_congr rfl fun i _ => Finset.sum_congr rfl fun j _ => ?_
    rw [Finset.sum_eq_single u]
    · simp
    · intro v _ different
      simp [Fin.val_inj, different]
    · simp
  · rintro grid n mapped rfl here sameFlp rfl
    refine ⟨fun b => ?_, fun b c const i inRows j inCols => ?_, fun g c const u inFlp => ?_⟩
    · have cellArea : grid.size.width * grid.size.height / (grid.size.cols * grid.size.rows) =
          grid.size.cw * grid.size.ch := (div_mul_div_comm _ _ _ _).symm
      simp only [xlateVectorB2g, here, blistAvg_power, shares, cellArea, sameFlp]
      calc ∑ i ∈ Finset.range grid.size.rows, ∑ j ∈ Finset.range grid.size.cols,
            (∑ u : Fin layer.flp.length, cellShare grid.size layer.flp[u] i j *
              (b.getD (base grid.layers n + u) 0 /
                (layer.flp[u.val]?.map fun unit => unit.width * unit.height).getD 0)) *
              (grid.size.cw * grid.size.ch)
          = ∑ u : Fin layer.flp.length, (∑ i ∈ Finset.range grid.size.rows,
              ∑ j ∈ Finset.range grid.size.cols, cellShare grid.size layer.flp[u] i j *
                (grid.size.cw * grid.size.ch)) * (b.getD (base grid.layers n + u) 0 /
                  (layer.flp[u].width * layer.flp[u].height)) := by
            simp only [Finset.sum_mul]
            refine (Finset.sum_congr rfl fun i _ => Finset.sum_comm).trans
              (Finset.sum_comm.trans (Finset.sum_congr rfl fun u _ => ?_))
            refine Finset.sum_congr rfl fun i _ => Finset.sum_congr rfl fun j _ => ?_
            simp only [Fin.getElem_fin, u.isLt, getElem?_pos, Option.map_some,
              Option.getD_some]
            ring
        _ = ∑ u : Fin layer.flp.length, b.getD (base grid.layers n + u) 0 := by
            refine Finset.sum_congr rfl fun u _ => ?_
            have onDie := tiles.onDie layer.flp[u] (List.getElem_mem _)
            rw [sum_cellShare wf onDie, mul_div_cancel₀]
            exact (mul_pos onDie.width onDie.height).ne'
        _ = ∑ u ∈ Finset.range layer.flp.length, b.getD (base grid.layers n + u) 0 :=
            (Finset.sum_range fun u => b.getD (base grid.layers n + u) 0).symm
    · simp only [xlateVectorB2g, here, blistAvg_temp, shares]
      have values : ∀ u : Fin layer.flp.length, cellShare grid.size layer.flp[u] i j *
          b.getD (base grid.layers n + u) 0 = cellShare grid.size layer.flp[u] i j * c :=
        fun u => by rw [const u u.isLt]
      rw [Finset.sum_congr rfl fun u _ => values u, ← Finset.sum_mul,
        sum_cellShare_cell wf tiles inRows inCols, one_mul]
    · have at_u : mapped.maps.g2bmap[u]? = some (cellsOf grid.size layer.flp[u]) := by
        rw [cells]
        simp [inFlp]
      have onDie := tiles.onDie layer.flp[u] (List.getElem_mem _)
      have inside := cellsOf_inside wf onDie
      rw [getD_xlateTempG2b here at_u]
      refine blockTemp_const inside.1.1 inside.2.1 (fun i j covers => ?_) grid.mapMode
      exact const i (covers.1.2.trans_le inside.1.2) j (covers.2.2.trans_le inside.2.2)

/-! ## Examples -/

/-- A number between two integers, `DELTA` away from both, is clear. -/
theorem clear_of_between {val : ℝ} (k : ℤ) (above : k + DELTA ≤ val) (below : val + DELTA ≤ k + 1) :
    Clear val := by
  refine .inr fun m => ?_
  rcases lt_or_ge k m with behind | before
  · have : (k : ℝ) + 1 ≤ m := by exact_mod_cast behind
    rw [abs_sub_comm]
    exact (by linarith : DELTA ≤ (m : ℝ) - val).trans (le_abs_self _)
  · have : (m : ℝ) ≤ k := by exact_mod_cast before
    exact (by linarith : DELTA ≤ val - m).trans (le_abs_self _)

/-- A die of one by one. -/
noncomputable def unitDie (cells : ℕ) : GridSize ℝ := ⟨1, 1, cells, cells, false⟩

/-- A strip across the die. -/
noncomputable def strip (left width : ℝ) : FlpUnit ℝ := ⟨left, 0, width, 1, false, false, 0, 0⟩

noncomputable def stripLayer (flp : List (FlpUnit ℝ)) : FlpLayer ℝ := ⟨flp, true, 100, 1, 1⟩

/-- Two blocks side by side on a die of one cell. -/
theorem setBgmap_conserves_halves :
    ∃ maps, setBgmap (unitDie 1) (stripLayer [strip 0 (1 / 2), strip (1 / 2) (1 / 2)]) = .ok maps ∧
      ((listed (maps.b2gmap 0 0)).map (·.occupancy)).sum = 1 := by
  have tiles : Tiles (unitDie 1) (stripLayer [strip 0 (1 / 2), strip (1 / 2) (1 / 2)]).flp := by
    constructor
    · simp only [stripLayer, List.forall_mem_cons]
      refine ⟨?_, ?_, by simp⟩ <;> constructor <;> norm_num [strip, unitDie]
    · intro x y left right below above
      simp only [unitDie] at right above
      have holds (u : Fin 2) : (stripLayer [strip 0 (1 / 2), strip (1 / 2) (1 / 2)]).flp[u].Contains
          x y ↔ (u = 0 ↔ x < 1 / 2) := by
        fin_cases u
        · simp [FlpUnit.Contains, stripLayer, strip, below, above, left]
        · simp [FlpUnit.Contains, stripLayer, strip, below, above]
          grind
      have one : ∃! u : Fin 2, (u = 0 ↔ x < 1 / 2) := by
        rcases lt_or_ge x (1 / 2) with first | second
        · exact ⟨0, by simpa using first, fun u same => same.2 first⟩
        · exact ⟨1, by simpa using second, fun u same => by grind⟩
      exact (existsUnique_congr holds).2 one
  obtain ⟨maps, run, cells, -⟩ := setBgmap_conserves
    (by constructor <;> norm_num [unitDie] : (unitDie 1).WellFormed) tiles
    (by
      simp only [stripLayer, List.forall_mem_cons]
      have half : Clear ((1 : ℝ) / 2) := clear_of_between 0 (by norm_num [DELTA]) (by norm_num [DELTA])
      refine ⟨⟨.inl ⟨0, ?_⟩, ?_, .inl ⟨0, ?_⟩, .inl ⟨1, ?_⟩⟩,
        ⟨?_, .inl ⟨1, ?_⟩, .inl ⟨0, ?_⟩, .inl ⟨1, ?_⟩⟩, by simp⟩ <;>
        norm_num [strip, unitDie, GridSize.cw, GridSize.ch] <;> norm_num at half ⊢ <;> exact half)
    (by
      simp only [stripLayer, List.forall_mem_cons]
      refine ⟨?_, ?_, by simp⟩ <;> constructor <;>
        norm_num [strip, unitDie, GridSize.cw, GridSize.ch, DELTA])
  exact ⟨maps, run, cells 0 Nat.one_pos 0 Nat.one_pos⟩

/-- Three strips, the middle one a tenth of `DELTA` wide. -/
noncomputable def thinStrips : FlpLayer ℝ :=
  stripLayer [strip 0 (1 / 2), strip (1 / 2) (1 / 10 ^ 7),
    strip (1 / 2 + 1 / 10 ^ 7) (1 / 2 - 1 / 10 ^ 7)]

theorem thinStrips_tiles : Tiles (unitDie 1) thinStrips.flp := by
  constructor
  · intro unit member
    simp only [thinStrips, stripLayer, List.mem_cons, List.not_mem_nil, or_false] at member
    rcases member with rfl | rfl | rfl <;> constructor <;> norm_num [strip, unitDie]
  · intro x y left right below above
    simp only [unitDie] at right above
    have unique : ∀ (u : Fin 3), thinStrips.flp[u].Contains x y →
        (∀ v : Fin 3, thinStrips.flp[v].Contains x y → v = u) →
        ∃! u : Fin thinStrips.flp.length, thinStrips.flp[u].Contains x y :=
      fun u here others => ⟨u, here, others⟩
    have only : ∀ u v : Fin 3, thinStrips.flp[u].Contains x y → thinStrips.flp[v].Contains x y →
        v = u := by
      intro u v inU inV
      fin_cases u <;> fin_cases v <;> first
        | rfl
        | (exfalso
           simp [FlpUnit.Contains, thinStrips, stripLayer, strip] at inU inV
           linarith [inU.1.1, inU.1.2, inV.1.1, inV.1.2])
    rcases lt_or_ge x (1 / 2) with first | notFirst
    · refine unique 0 ?_ fun v => only 0 v ?_ <;>
        simpa [FlpUnit.Contains, thinStrips, stripLayer, strip] using
          ⟨⟨left, by linarith⟩, below, above⟩
    · rcases lt_or_ge x (1 / 2 + 1 / 10 ^ 7) with second | notSecond
      · refine unique 1 ?_ fun v => only 1 v ?_ <;>
          simpa [FlpUnit.Contains, thinStrips, stripLayer, strip] using
            ⟨⟨by linarith, by linarith⟩, below, above⟩
      · refine unique 2 ?_ fun v => only 2 v ?_ <;>
          simpa [FlpUnit.Contains, thinStrips, stripLayer, strip] using
            ⟨⟨by linarith, by linarith⟩, below, above⟩

theorem thinStrips_clear : ∀ unit ∈ thinStrips.flp, unit.EdgesClear (unitDie 1) := by
  have rows : ∀ l w, Clear ((strip l w).bottomy / (unitDie 1).ch) ∧
      Clear (((strip l w).bottomy + (strip l w).height) / (unitDie 1).ch) := fun l w =>
    ⟨.inl ⟨0, by norm_num [strip]⟩, .inl ⟨1, by norm_num [strip, unitDie, GridSize.ch]⟩⟩
  intro unit member
  simp only [thinStrips, stripLayer, List.mem_cons, List.not_mem_nil, or_false] at member
  rcases member with rfl | rfl | rfl
  · refine ⟨.inl ⟨0, by norm_num [strip]⟩, ?_, (rows _ _).1, (rows _ _).2⟩
    exact clear_of_between 0 (by norm_num [strip, unitDie, GridSize.cw, DELTA])
      (by norm_num [strip, unitDie, GridSize.cw, DELTA])
  · refine ⟨clear_of_between 0 ?_ ?_, clear_of_between 0 ?_ ?_, (rows _ _).1, (rows _ _).2⟩ <;>
      norm_num [strip, unitDie, GridSize.cw, DELTA]
  · refine ⟨clear_of_between 0 ?_ ?_, .inl ⟨1, ?_⟩, (rows _ _).1, (rows _ _).2⟩ <;>
      norm_num [strip, unitDie, GridSize.cw, DELTA]

/-- A strip enters the one cell with its width, as far as the tolerance lets it. -/
theorem mapUnit_strip {left width : ℝ} (start : 0 ≤ left) (positive : 0 < width)
    (stop : left + width ≤ 1) (edges : (strip left width).EdgesClear (unitDie 1))
    (snapped : 0 ≤ snap width 1) (layer : FlpLayer ℝ) (maps : Maps ℝ) (u : ℕ) :
    ∃ maps', mapUnit (unitDie 1) layer maps (strip left width, u) = .ok maps' ∧
      ((listed (maps'.b2gmap 0 0)).map (·.occupancy)).sum =
        ((listed (maps.b2gmap 0 0)).map (·.occupancy)).sum + snap width 1 := by
  have size : (unitDie 1).cw = 1 ∧ (unitDie 1).ch = 1 := by
    norm_num [unitDie, GridSize.cw, GridSize.ch]
  have onDie : (strip left width).OnDie (unitDie 1) := by
    constructor <;> norm_num [strip, unitDie] <;> assumption
  have wf : (unitDie 1).WellFormed := by constructor <;> norm_num [unitDie]
  have cells : cellsOf (unitDie 1) (strip left width) = ⟨0, 1, 0, 1⟩ := by
    have first : ⌊left⌋ = 0 := Int.floor_eq_zero_iff.mpr ⟨start, by linarith⟩
    have last : ⌈left + width⌉ = 1 := by
      rw [Int.ceil_eq_iff]
      norm_num
      exact ⟨by linarith, stop⟩
    simp only [cellsOf, size, div_one]
    simp [strip, unitDie, first, last]
  have occupancy : occupancy? (unitDie 1) (strip left width) ⟨0, 1, 0, 1⟩ 0 0 =
      some (snap width 1) := by
    have full : snap (1 : ℝ) 1 = 1 := by norm_num [snap, near, DELTA]
    have across : min (left + width) 1 - max left 0 = width := by
      rw [min_eq_left stop, max_eq_left start]
      ring
    simp only [occupancy?, size]
    simp [strip, unitDie, full, across, not_lt_of_ge snapped]
  refine ⟨_, by rw [mapUnit, extent_eq wf onDie edges, cells]; exact if_pos (by
    simp [overlapsAll, occupancy]), ?_⟩
  have covers : (⟨0, 1, 0, 1⟩ : Glist).Covers 0 0 := by simp [Glist.Covers]
  dsimp only
  rw [if_pos covers, occupancy, Option.map_some, sum_occupancy, blockSum_place, sum_occupancy]
  simp [occupant]

/-- The strips tile the die, with clear edges, but the middle one is listed with no occupancy. -/
theorem thinStrips_lose :
    Tiles (unitDie 1) thinStrips.flp ∧ (∀ unit ∈ thinStrips.flp, unit.EdgesClear (unitDie 1)) ∧
    ∃ maps, setBgmap (unitDie 1) thinStrips = .ok maps ∧
      ((listed (maps.b2gmap 0 0)).map (·.occupancy)).sum ≠ 1 := by
  refine ⟨thinStrips_tiles, thinStrips_clear, ?_⟩
  have edges := thinStrips_clear
  simp only [thinStrips, stripLayer, List.forall_mem_cons] at edges
  have half : snap (1 / 2 : ℝ) 1 = 1 / 2 := by norm_num [snap, near, DELTA, abs_of_nonneg]
  have thin : snap (1 / 10 ^ 7 : ℝ) 1 = 0 := by norm_num [snap, near, DELTA, abs_of_nonneg]
  have rest : snap (1 / 2 - 1 / 10 ^ 7 : ℝ) 1 = 1 / 2 - 1 / 10 ^ 7 := by
    norm_num [snap, near, DELTA, abs_of_nonneg, abs_of_nonpos]
  obtain ⟨first, run₁, sum₁⟩ := mapUnit_strip (by norm_num) (by norm_num) (by norm_num) edges.1
    (by rw [half]; norm_num) thinStrips ⟨fun _ _ => none, []⟩ 0
  obtain ⟨second, run₂, sum₂⟩ := mapUnit_strip (by norm_num) (by norm_num) (by norm_num) edges.2.1
    (by rw [thin]) thinStrips first 1
  obtain ⟨third, run₃, sum₃⟩ := mapUnit_strip (by norm_num) (by norm_num) (by norm_num) edges.2.2.1
    (by rw [rest]; norm_num) thinStrips second 2
  refine ⟨third, ?_, ?_⟩
  · have units : thinStrips.flp.zipIdx = [(strip 0 (1 / 2), 0), (strip (1 / 2) (1 / 10 ^ 7), 1),
        (strip (1 / 2 + 1 / 10 ^ 7) (1 / 2 - 1 / 10 ^ 7), 2)] := rfl
    rw [setBgmap, units, List.foldlM_cons, run₁]
    change List.foldlM (mapUnit (unitDie 1) thinStrips) first _ = _
    rw [List.foldlM_cons, run₂]
    change List.foldlM (mapUnit (unitDie 1) thinStrips) second _ = _
    rw [List.foldlM_cons, run₃]
    rfl
  · rw [sum₃, sum₂, sum₁, half, thin, rest]
    norm_num [listed]

end Real

end GpuHotSpot.HotSpotTool.BlockMap
